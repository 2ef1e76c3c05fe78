import Primer.Program

/-! # Where the faults of a program come from

A text is parsed, checked and evaluated in this order, and each stage has its own kind of fault. So
the kind of a fault tells which stage has failed, and that the stages before it have not.
-/
namespace Primer

theorem bind_eq_error {ε α β : Type} {r : Except ε α} {k : α → Except ε β} {f : ε}
    (h : r >>= k = .error f) : r = .error f ∨ ∃ a, r = .ok a ∧ k a = .error f := by
  cases r with
  | error g =>
    cases h
    exact .inl rfl
  | ok a => exact .inr ⟨a, rfl, h⟩

theorem mapError_ne_evaluation {α : Type} (r : Except SourceFault α) (f : EvaluationFault) :
    r.mapError Fault.source ≠ .error (.evaluation f) := by
  cases r <;> nofun

theorem Tree.symbols_ne_evaluation (tree : Tree) (f : EvaluationFault) :
    tree.symbols ≠ .error (.evaluation f) := by
  unfold Tree.symbols
  split <;> nofun

theorem Tree.symbols_eq_ok_iff {tree : Tree} {table : SymbolTable} :
    tree.symbols = .ok table ↔ tree.check.run .initial = .ok () table := by
  unfold Tree.symbols
  cases tree.check.run .initial <;> simp

theorem Tree.outcome_eq_ok_iff {tree : Tree} {outcome : Outcome} :
    tree.outcome = .ok outcome ↔
      tree.eval.run .empty = .ok outcome.result outcome.environment := by
  obtain ⟨result, env⟩ := outcome
  unfold Tree.outcome
  cases tree.eval.run .empty <;> simp

theorem Tree.outcome_eq_evaluation_iff {tree : Tree} {f : EvaluationFault} :
    tree.outcome = .error (.evaluation f) ↔ ∃ env, tree.eval.run .empty = .error f env := by
  unfold Tree.outcome
  cases tree.eval.run .empty <;> simp

theorem Tree.run_evalValue {tree : Tree} {value : Value} {env env' : Environment}
    (h : tree.eval.run env = .ok (some value) env') : tree.evalValue.run env = .ok value env' := by
  rw [evalValue, EStateM.run_bind, h]
  rfl

def Tree.value (tree : Tree) : Except Fault Value :=
  match tree.evalValue.run .empty with
  | .ok value _ => .ok value
  | .error f _ => .error (.evaluation f)

namespace Program
variable {source : String} {tree : Tree}

theorem check_eq (source : String) : check source = parse source >>= Tree.symbols := rfl

theorem interpret_eq (source : String) : interpret source = parse source >>= Tree.outcome := rfl

theorem check_of_parse (h : parse source = .ok tree) : check source = tree.symbols := by
  rw [check, h]
  rfl

theorem interpret_of_parse (h : parse source = .ok tree) : interpret source = tree.outcome := by
  rw [interpret, h]
  rfl

theorem run_eq (source : String) : run source = check source >>= fun _ => interpret source := by
  unfold run check interpret
  cases parse source <;> rfl

theorem run_of_check {table : SymbolTable} (h : check source = .ok table) :
    run source = interpret source := by
  rw [run_eq, h]
  rfl

theorem exists_tree_of_interpret {f : EvaluationFault}
    (h : interpret source = .error (.evaluation f)) :
    ∃ tree, parse source = .ok tree ∧ ∃ env, tree.eval.run .empty = .error f env := by
  cases hparse : parse source with
  | ok tree =>
    rw [interpret_of_parse hparse] at h
    exact ⟨tree, rfl, Tree.outcome_eq_evaluation_iff.mp h⟩
  | error g =>
    rw [interpret, hparse] at h
    cases h
    exact absurd hparse (mapError_ne_evaluation _ f)

theorem interpret_of_run {f : EvaluationFault} (h : run source = .error (.evaluation f)) :
    interpret source = .error (.evaluation f) := by
  cases hparse : parse source with
  | error g =>
    rw [run, hparse] at h
    cases h
    exact absurd hparse (mapError_ne_evaluation _ f)
  | ok tree =>
    rw [run_eq, check_of_parse hparse] at h
    cases hsymbols : tree.symbols with
    | error g =>
      rw [hsymbols] at h
      cases h
      exact absurd hsymbols (tree.symbols_ne_evaluation f)
    | ok table =>
      rw [hsymbols] at h
      exact h

theorem exists_tree_of_check {table : SymbolTable} (h : check source = .ok table) :
    ∃ tree, parse source = .ok tree ∧ tree.check.run .initial = .ok () table := by
  cases hparse : parse source with
  | error g =>
    rw [check, hparse] at h
    cases h
  | ok tree =>
    rw [check_of_parse hparse] at h
    exact ⟨tree, rfl, Tree.symbols_eq_ok_iff.mp h⟩

theorem exists_table_of_run {outcome : Outcome} (h : run source = .ok outcome) :
    ∃ table, check source = .ok table ∧ interpret source = .ok outcome := by
  rw [run_eq] at h
  cases hcheck : check source with
  | error g =>
    rw [hcheck] at h
    cases h
  | ok table =>
    rw [hcheck] at h
    exact ⟨table, rfl, h⟩

end Program

theorem Expression.evaluate_eq (source : String) :
    evaluate source = parse source >>= Tree.value := rfl

theorem Expression.evaluate_of_parse {source : String} {tree : Tree}
    (h : parse source = .ok tree) : evaluate source = tree.value := by
  rw [evaluate_eq, h]
  rfl

theorem Expression.exists_tree_of_evaluate {source : String} {f : EvaluationFault}
    (h : evaluate source = .error (.evaluation f)) :
    ∃ tree, parse source = .ok tree ∧ ∃ env, tree.evalValue.run .empty = .error f env := by
  cases hparse : parse source with
  | error g =>
    rw [evaluate, hparse] at h
    cases h
    exact absurd hparse (mapError_ne_evaluation _ f)
  | ok tree =>
    refine ⟨tree, rfl, ?_⟩
    cases hrun : tree.evalValue.run .empty with
    | ok value env => simp [evaluate, hparse, bind, Except.bind, hrun] at h
    | error g env =>
      simp only [evaluate, hparse, bind, Except.bind, hrun] at h
      cases h
      exact ⟨env, rfl⟩

end Primer
