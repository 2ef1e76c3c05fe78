import Primer.Proofs.Evaluation.Instructions
import Primer.Proofs.Grammar.Shape
import Primer.Proofs.Lexing.Places
import Primer.Proofs.Lexing.Spelling
import Primer.Proofs.Programs

/-! # Expressions by themselves and in a program

An expression changes no variable, and it is refused nowhere as a statement would be. So it makes no
difference to its value or its fault whether a text is evaluated as an expression or as the value of
a variable in a program. The one trace of the program is that the text starts further to the right.
-/
namespace Primer

/-- The instructions of expressions. -/
def Instruction.computes : Instruction → Bool
  | .push _ | .load .. | .sign .. | .combine _ => true
  | _ => false

namespace Tree

theorem IsExpression.givesValue_eq {tree : Tree} (h : tree.IsExpression) :
    tree.givesValue = true := by
  cases h <;> rfl

theorem IsExpression.demanded_eq {tree : Tree} (h : tree.IsExpression) : tree.demanded = [] := by
  rw [demanded, h.givesValue_eq, if_pos rfl]

theorem IsExpression.computes {tree : Tree} (h : tree.IsExpression) :
    ∀ i ∈ tree.code, i.computes = true := by
  induction h with
  | literal => exact List.forall_mem_singleton.mpr rfl
  | «variable» => exact List.forall_mem_singleton.mpr rfl
  | binary hleft hright ihl ihr =>
    simp only [code, hleft.demanded_eq, hright.demanded_eq, List.append_nil, List.forall_mem_append]
    exact ⟨⟨ihl, ihr⟩, List.forall_mem_singleton.mpr rfl⟩
  | signed h ih =>
    simp only [code, h.demanded_eq, List.append_nil, List.forall_mem_append]
    exact ⟨ih, List.forall_mem_singleton.mpr rfl⟩

theorem mem_codeAll {trees : List Tree} {i : Instruction} (h : i ∈ codeAll trees) :
    i = .drop ∨ ∃ tree ∈ trees, i ∈ tree.code := by
  induction trees with
  | nil => cases h
  | cons tree trees ih =>
    simp only [codeAll, List.mem_append] at h
    rcases h with (h | h) | h
    · exact .inr ⟨tree, List.mem_cons_self, h⟩
    · exact .inl (eq_drop_of_mem_ignored h)
    · rcases ih h with h | ⟨t, ht, h⟩
      · exact .inl h
      · exact .inr ⟨t, List.mem_cons_of_mem _ ht, h⟩

theorem IsExpression.mem_store {tree : Tree} (h : tree.IsExpression) {name : String}
    {i : Instruction} (hi : i ∈ tree.code ++ tree.demanded ++ [.store name]) :
    i ∈ tree.code ∨ i = .store name := by
  rw [h.demanded_eq, List.append_nil] at hi
  rcases List.mem_append.mp hi with hi | hi
  · exact .inl hi
  · exact .inr (List.mem_singleton.mp hi)

theorem IsExpression.refuse_not_mem {tree : Tree} (h : tree.IsExpression) (kind : String)
    (line : Nat) : .refuse kind line ∉ tree.code := by
  intro hmem
  cases h.computes _ hmem

theorem IsDeclaration.refuse_not_mem {tree : Tree} (h : tree.IsDeclaration) (kind : String)
    (line : Nat) : .refuse kind line ∉ tree.code := by
  obtain ⟨hinit⟩ := h
  rename_i name type typeLine line' init
  cases init with
  | none => simp [code]
  | some init =>
    intro hmem
    rcases (hinit init rfl).mem_store hmem with hmem | hmem
    · exact (hinit init rfl).refuse_not_mem _ _ hmem
    · cases hmem

theorem IsStatement.refuse_not_mem {tree : Tree} (h : tree.IsStatement) (kind : String)
    (line : Nat) : .refuse kind line ∉ tree.code := by
  induction h with
  | empty => simp [code]
  | procedure => simp [code]
  | assignment h =>
    intro hmem
    rcases h.mem_store hmem with hmem | hmem
    · exact h.refuse_not_mem _ _ hmem
    · cases hmem
  | block _ _ ih =>
    intro hmem
    rcases mem_codeAll hmem with h | ⟨tree, htree, h⟩
    · cases h
    · exact ih tree htree h
  | declarations _ hdeclarations =>
    intro hmem
    rcases mem_codeAll hmem with h | ⟨tree, htree, h⟩
    · cases h
    · exact (hdeclarations tree htree).refuse_not_mem _ _ h

theorem IsExpression.finalState_eval {tree : Tree} (h : tree.IsExpression) (env : Environment) :
    finalState (tree.eval.run env) = env := by
  obtain ⟨before, after, m, hcode, hrun, henv⟩ := exists_executed tree env
  rw [← henv]
  refine execute_preserves (I := fun m => m.environment = env) ?_ rfl hrun
  intro i hi m m' hm hdoes
  have hcomputes := h.computes i (hcode ▸ List.mem_append_left _ hi)
  cases hdoes with
  | store => cases hcomputes
  | drop => cases hcomputes
  | _ => exact hm

theorem isSome_of_eval {tree : Tree} {env env' : Environment} {result : Option Value}
    (h : tree.eval.run env = .ok result env') : result.isSome = tree.givesValue := by
  have hrun := realizes_eval tree [] env
  rw [h] at hrun
  generalize (execute tree.code).run ⟨env, []⟩ = r at hrun
  cases hrun with
  | ok hputs => exact hputs.isSome_eq

theorem IsExpression.eval_cases {tree : Tree} (h : tree.IsExpression) (env : Environment) :
    (∃ value, tree.eval.run env = .ok (some value) env) ∨
      ∃ f, tree.eval.run env = .error f env := by
  have hfinal := h.finalState_eval env
  cases heval : tree.eval.run env with
  | error f env' =>
    rw [heval] at hfinal
    exact .inr ⟨f, congrArg _ hfinal⟩
  | ok result env' =>
    rw [heval] at hfinal
    have hsome := (isSome_of_eval heval).trans h.givesValue_eq
    obtain ⟨value, rfl⟩ := Option.isSome_iff_exists.mp hsome
    exact .inl ⟨value, congrArg _ hfinal⟩

theorem IsExpression.outcome_assignment {tree : Tree} (h : tree.IsExpression) (name : String)
    (line : Nat) :
    (Tree.assignment name tree line).outcome =
      tree.value.map fun value => ⟨none, NameMap.empty.insert name value⟩ := by
  rw [outcome, eval, value, evalValue, EStateM.run_bind, EStateM.run_bind]
  rcases h.eval_cases .empty with ⟨value, hvalue⟩ | ⟨f, hf⟩
  · rw [hvalue]
    rfl
  · rw [hf]
    rfl

end Tree

def SourceFault.indented (k : Nat) : SourceFault → SourceFault
  | .lexical f => .lexical (f.indented k)
  | f => f

/-- The fault in a text that starts `k` columns further to the right. Only stray characters on the
first line are affected. -/
def Fault.indented (k : Nat) : Fault → Fault
  | .source f => .source (f.indented k)
  | f => f

namespace Grammar
open Reader

theorem unexpected_indented (k : Nat) (ending : Ending) (ts : Tokens) (e : Expectation) :
    unexpected (ending.indented k) ts e = (unexpected ending ts e).indented k := by
  rcases ts with _ | ⟨u, ts⟩
  · cases ending <;> rfl
  · cases ending <;> rfl

theorem finish_indented (k : Nat) (ending : Ending) (ts : Tokens) (tree : Tree) :
    finish (ending.indented k) ts tree = (finish ending ts tree).mapError (·.indented k) := by
  rcases ts with _ | ⟨u, ts⟩
  · cases ending <;> rfl
  · cases ending <;> rfl

theorem wholeText_indented {read : Reader Tree} {Phrase : Tokens → Tree → Prop}
    (hread : Recognises read Phrase) (k : Nat) (s : TokenStream) :
    wholeText read (s.indented k) = (wholeText read s).mapError (·.indented k) := by
  obtain ⟨ts, ending⟩ := s
  cases hread.decision ts with
  | accepts used rest a hts _ hok =>
    simp only [wholeText, TokenStream.indented, hts, hok _ rest rfl]
    exact finish_indented k ending rest a
  | refuses used rest e hts _ herror =>
    simp only [wholeText, TokenStream.indented, hts, herror _ rest rfl, unexpected_indented]
    rfl

theorem wholeText_assignment (x : String) (line line' line'' : Nat) (s : TokenStream) :
    wholeText readProgram ⟨⟨.keyword .main, line⟩ :: ⟨.name x, line'⟩ ::
        ⟨.mark .equals, line''⟩ :: s.tokens, s.ending⟩ =
      (wholeText (readOperation .sum) s).map (.assignment x · line') := by
  simp only [wholeText]
  rw [readProgram, andThen_ok take_token, readStatement_assignment, readAssignment_eq,
    andThen_ok take_token, afterEquals]
  cases hread : readOperation .sum s.ending s.tokens with
  | error f =>
    rw [andThen_error hread]
    rfl
  | ok r =>
    obtain ⟨tree, rest⟩ := r
    rw [andThen_ok hread]
    change finish s.ending rest _ = (finish s.ending rest tree).map _
    rcases rest with _ | ⟨u, rest⟩
    · cases s.ending <;> rfl
    · cases s.ending <;> rfl

end Grammar

open Lexing in
theorem TokenStream.ofString_assignment (source : String) :
    ofString ("main x = " ++ source) =
      ⟨⟨.keyword .main, 1⟩ :: ⟨.name "x", 1⟩ :: ⟨.mark .equals, 1⟩ ::
        ((ofString source).indented 9).tokens, ((ofString source).indented 9).ending⟩ := by
  have hmain : Writes (.word "main".toList) (.keyword .main) :=
    writes_word (by decide) rfl
  have hx : Writes (.word "x".toList) (.name "x") :=
    writes_word (by decide) rfl
  have hrest := ofCursor_indented 9 (Cursor.ofString source) (Nat.one_pos)
  have htext : ("main x = " ++ source).toList =
      (Lexeme.word "main".toList).spelling ++ ' ' :: ((Lexeme.word "x".toList).spelling ++
        ' ' :: ((Lexeme.mark .equals).spelling ++ ' ' :: source.toList)) := by
    rw [String.toList_append]
    rfl
  rw [ofString, Cursor.ofString, htext, hmain.ofCursor_eq (endsBefore_space _ _), ofCursor_space,
    hx.ofCursor_eq (endsBefore_space _ _), ofCursor_space,
    (writes_mark .equals).ofCursor_eq (endsBefore_space _ _), ofCursor_space]
  exact congrArg (fun s : TokenStream => TokenStream.mk (_ :: _ :: _ :: s.tokens) s.ending) hrest

theorem Program.parse_assignment (source : String) :
    Program.parse ("main x = " ++ source) =
      ((Expression.parse source).map (.assignment "x" · 1)).mapError (·.indented 9) := by
  rw [Program.parse, TokenStream.ofString_assignment, Grammar.program_eq_wholeText,
    Grammar.wholeText_assignment, Grammar.wholeText_indented Grammar.recognises_expression,
    Expression.parse, Grammar.expression_eq_wholeText]
  cases Grammar.wholeText (Grammar.readOperation .sum) (TokenStream.ofString source) <;> rfl

theorem Program.interpret_assignment (source : String) :
    Program.interpret ("main x = " ++ source) =
      ((Expression.evaluate source).map fun value =>
        (⟨none, NameMap.empty.insert "x" value⟩ : Outcome)).mapError (·.indented 9) := by
  rw [Program.interpret_eq, Program.parse_assignment, Expression.evaluate_eq]
  cases hparse : Expression.parse source with
  | error f => rfl
  | ok tree =>
    have htree := Expression.isExpression_of_parse hparse
    change (Tree.assignment "x" tree 1).outcome = (tree.value.map _).mapError _
    rw [htree.outcome_assignment, Tree.value]
    cases tree.evalValue.run .empty <;> rfl

/-- Evaluating a text as an expression and assigning it to the only variable of a program come to the
same: the value is that of the variable, and a fault is the same up to the column of a stray
character on the first line. -/
theorem evaluate_iff_interpret_assignment (source : String) :
    (∀ value, Expression.evaluate source = .ok value ↔
      ∃ outcome, Program.interpret ("main x = " ++ source) = .ok outcome ∧ outcome.result = none ∧
        ∀ name, outcome.environment.get? name = if name = "x" then some value else none) ∧
    ∀ f, Expression.evaluate source = .error f →
      Program.interpret ("main x = " ++ source) = .error (f.indented 9) := by
  rw [Program.interpret_assignment]
  constructor
  · intro value
    constructor
    · intro h
      rw [h]
      refine ⟨_, rfl, rfl, fun name => ?_⟩
      rw [NameMap.get?_insert, NameMap.get?_empty]
    · rintro ⟨outcome, h, -, henv⟩
      cases heval : Expression.evaluate source with
      | error f =>
        rw [heval] at h
        cases h
      | ok value' =>
        rw [heval] at h
        cases h
        have hx := henv "x"
        rw [NameMap.get?_insert, if_pos rfl, if_pos rfl] at hx
        cases hx
        rfl
  · intro f h
    rw [h]
    rfl

end Primer
