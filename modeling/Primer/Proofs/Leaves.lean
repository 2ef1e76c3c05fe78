import Primer.Proofs.Checking.Occurrences
import Primer.Proofs.Evaluation.Expressions

/-! # Blocks and their leaves

Blocks group statements and do nothing else. Evaluating or checking a tree is going along its leaves
from left to right, up to the first one that fails. In a program, a leaf that fails has not changed
any variable. It has changed the symbol table only if it declares a variable whose initializer has
failed, because the variable is inserted before its initializer is checked.
-/
namespace Primer

mutual

/-- The statements and expressions of the tree outside of blocks, from left to right. Procedures and
empty statements do nothing and are left out. -/
def Tree.leaves : Tree → List Tree
  | .block children _ => leavesAll children
  | .procedure .. => []
  | .empty => []
  | tree => [tree]

def leavesAll : List Tree → List Tree
  | [] => []
  | tree :: others => tree.leaves ++ leavesAll others

end

section Walks
variable {ε σ : Type}

/-- A walk over trees that goes through blocks from left to right and passes by procedures. -/
structure Dissolves (walk : Tree → EStateM ε σ Unit) (walkAll : List Tree → EStateM ε σ Unit) :
    Prop where
  block : ∀ children line, walk (.block children line) = walkAll children
  procedure : ∀ name body line, walk (.procedure name body line) = pure ()
  empty : walk .empty = pure ()
  nil : walkAll [] = pure ()
  cons : ∀ tree others, walkAll (tree :: others) = walk tree >>= fun _ => walkAll others

variable {walk : Tree → EStateM ε σ Unit} {walkAll : List Tree → EStateM ε σ Unit}

mutual

theorem Dissolves.eq_forM (h : Dissolves walk walkAll) : ∀ tree : Tree,
    walk tree = forM tree.leaves walk
  | .block children line => by rw [h.block, h.all_eq_forM children, Tree.leaves]
  | .procedure name body line => by rw [h.procedure, Tree.leaves, List.forM_nil]
  | .empty => by rw [h.empty, Tree.leaves, List.forM_nil]
  | .literal .. | .binary .. | .signed .. | .variable .. | .assignment .. | .declaration .. => by
    simp [Tree.leaves]

theorem Dissolves.all_eq_forM (h : Dissolves walk walkAll) : ∀ trees : List Tree,
    walkAll trees = forM (leavesAll trees) walk
  | [] => by rw [h.nil, leavesAll, List.forM_nil]
  | tree :: others => by
    rw [h.cons, leavesAll, List.forM_append, ← h.eq_forM tree, ← h.all_eq_forM others]

end

/-- A walk along trees stops at one of them: those before it have led to the state `mid`, and there it
fails. -/
def StopsAt (walk : Tree → EStateM ε σ Unit) (trees : List Tree) (start : σ) (leaf : Tree) (mid : σ)
    (f : ε) (last : σ) : Prop :=
  ∃ before after, trees = before ++ leaf :: after ∧ (forM before walk).run start = .ok () mid ∧
    (walk leaf).run mid = .error f last

theorem run_forM_append {before after : List Tree} {start mid : σ}
    (h : (forM before walk).run start = .ok () mid) :
    (forM (before ++ after) walk).run start = (forM after walk).run mid := by
  rw [List.forM_append, EStateM.run_bind, h]

theorem run_forM_eq_error_iff {trees : List Tree} {start last : σ} {f : ε} :
    (forM trees walk).run start = .error f last ↔
      ∃ leaf mid, StopsAt walk trees start leaf mid f last := by
  constructor
  · intro h
    induction trees generalizing start with
    | nil => cases h
    | cons tree trees ih =>
      rw [List.forM_cons, EStateM.run_bind] at h
      cases hwalk : (walk tree).run start with
      | error g next =>
        rw [hwalk] at h
        cases h
        exact ⟨tree, start, [], trees, rfl, rfl, hwalk⟩
      | ok _ next =>
        rw [hwalk] at h
        obtain ⟨leaf, mid, before, after, rfl, hbefore, hleaf⟩ := ih h
        refine ⟨leaf, mid, tree :: before, after, rfl, ?_, hleaf⟩
        rw [List.forM_cons, EStateM.run_bind, hwalk]
        exact hbefore
  · rintro ⟨leaf, mid, before, after, rfl, hbefore, hleaf⟩
    rw [run_forM_append hbefore, List.forM_cons, EStateM.run_bind, hleaf]

end Walks

/-- Evaluates the tree for its effect on the variables only. -/
def Tree.effect (tree : Tree) : Evaluator Unit := do
  let _ ← tree.eval
  pure ()

theorem dissolves_effect : Dissolves Tree.effect evalAll where
  block children line := by simp [Tree.effect, Tree.eval]
  procedure name body line := by simp [Tree.effect, Tree.eval]
  empty := by simp [Tree.effect, Tree.eval]
  nil := by rw [evalAll]
  cons tree others := by simp [Tree.effect, evalAll]

theorem dissolves_check : Dissolves Tree.check checkAll where
  block children line := by rw [Tree.check]
  procedure name body line := by rw [Tree.check]
  empty := by rw [Tree.check]
  nil := by rw [checkAll]
  cons tree others := by rw [checkAll]

theorem Tree.run_effect_eq_error_iff {tree : Tree} {env env' : Environment} {f : EvaluationFault} :
    tree.effect.run env = .error f env' ↔ tree.eval.run env = .error f env' := by
  rw [effect, EStateM.run_bind]
  cases tree.eval.run env <;> simp

theorem eval_block_eq (children : List Tree) (line : Nat) :
    (Tree.block children line).eval =
      forM (Tree.block children line).leaves Tree.effect >>= fun _ => pure none := by
  rw [Tree.eval, Tree.leaves, dissolves_effect.all_eq_forM]

theorem run_eval_eq_error_iff {tree : Tree} {env env' : Environment} {f : EvaluationFault} :
    tree.eval.run env = .error f env' ↔
      ∃ leaf mid, StopsAt Tree.effect tree.leaves env leaf mid f env' := by
  rw [← Tree.run_effect_eq_error_iff, dissolves_effect.eq_forM, run_forM_eq_error_iff]

theorem run_check_eq_error_iff {tree : Tree} {table now : SymbolTable} {f : DeclarationFault} :
    tree.check.run table = .error f now ↔
      ∃ leaf mid, StopsAt Tree.check tree.leaves table leaf mid f now := by
  rw [dissolves_check.eq_forM, run_forM_eq_error_iff]

theorem mem_leavesAll {trees : List Tree} {leaf : Tree} (h : leaf ∈ leavesAll trees) :
    ∃ tree ∈ trees, leaf ∈ tree.leaves := by
  induction trees with
  | nil => cases h
  | cons tree trees ih =>
    rcases List.mem_append.mp h with h | h
    · exact ⟨tree, List.mem_cons_self, h⟩
    · obtain ⟨t, ht, hleaf⟩ := ih h
      exact ⟨t, List.mem_cons_of_mem _ ht, hleaf⟩

namespace Tree

/-- The leaves of programs: assignments and declarations. -/
inductive IsSimple : Tree → Prop
  | assignment {name : String} {value : Tree} {line : Nat} (h : value.IsExpression) :
      IsSimple (.assignment name value line)
  | declaration {tree : Tree} (h : tree.IsDeclaration) : IsSimple tree

theorem IsDeclaration.leaves_eq {tree : Tree} (h : tree.IsDeclaration) : tree.leaves = [tree] := by
  obtain ⟨-⟩ := h
  rfl

theorem IsStatement.isSimple {tree : Tree} (h : tree.IsStatement) :
    ∀ leaf ∈ tree.leaves, leaf.IsSimple := by
  induction h with
  | empty => exact fun _ hleaf => nomatch hleaf
  | procedure => exact fun _ hleaf => nomatch hleaf
  | assignment h => exact List.forall_mem_singleton.mpr (.assignment h)
  | block _ _ ih =>
    intro leaf hleaf
    obtain ⟨tree, htree, hleaf⟩ := mem_leavesAll hleaf
    exact ih tree htree leaf hleaf
  | declarations _ hdeclarations =>
    intro leaf hleaf
    obtain ⟨tree, htree, hleaf⟩ := mem_leavesAll hleaf
    have hdeclaration := hdeclarations tree htree
    rw [hdeclaration.leaves_eq] at hleaf
    obtain rfl := List.mem_singleton.mp hleaf
    exact .declaration hdeclaration

theorem IsExpression.store_eq_error_iff {value : Tree} (h : value.IsExpression) {name : String}
    {env env' : Environment} {f : EvaluationFault} :
    (do Evaluator.write name (← Evaluator.demand value (← value.eval)); return none :
        Evaluator (Option Value)).run env = .error f env' ↔
      value.eval.run env = .error f env' := by
  rcases h.eval_cases env with ⟨x, hx⟩ | ⟨g, hg⟩
  · rw [EStateM.run_bind, hx]
    constructor <;> intro h <;> cases h
  · rw [EStateM.run_bind, hg]

/-- The expression whose value the leaf stores. -/
def stored? : Tree → Option Tree
  | .assignment _ value _ => some value
  | .declaration _ _ _ init _ => init
  | _ => none

theorem IsSimple.eval_eq_error_iff {leaf : Tree} (h : leaf.IsSimple) {env env' : Environment}
    {f : EvaluationFault} :
    leaf.eval.run env = .error f env' ↔
      ∃ value ∈ leaf.stored?, value.IsExpression ∧ value.eval.run env = .error f env' := by
  cases h with
  | assignment h =>
    rw [eval, h.store_eq_error_iff]
    simp [stored?, h]
  | declaration h =>
    obtain ⟨hinit⟩ := h
    rename_i name type typeLine line init
    cases init with
    | none => simp [stored?, eval]
    | some init =>
      have hinit := hinit init rfl
      rw [eval, hinit.store_eq_error_iff]
      simp [stored?, hinit]

theorem IsSimple.env_of_error {leaf : Tree} (h : leaf.IsSimple) {env env' : Environment}
    {f : EvaluationFault} (hf : leaf.eval.run env = .error f env') : env' = env := by
  obtain ⟨value, -, hvalue, herror⟩ := h.eval_eq_error_iff.mp hf
  have hfinal := hvalue.finalState_eval env
  rw [herror] at hfinal
  exact hfinal

theorem IsExpression.check_cases {tree : Tree} (h : tree.IsExpression) (table : SymbolTable) :
    tree.check.run table = .ok () table ∨ ∃ f, tree.check.run table = .error f table := by
  induction h with
  | literal => exact .inl rfl
  | «variable» =>
    rw [check, Checker.run_use]
    split
    · exact .inr ⟨_, rfl⟩
    · exact .inl rfl
  | binary _ _ ihl ihr =>
    rw [check, EStateM.run_bind]
    rcases ihl with hl | ⟨f, hl⟩
    · rw [hl]
      exact ihr
    · rw [hl]
      exact .inr ⟨f, rfl⟩
  | signed _ ih => exact ih

theorem IsExpression.table_of_error {tree : Tree} (h : tree.IsExpression) {table now : SymbolTable}
    {f : DeclarationFault} (hf : tree.check.run table = .error f now) : now = table := by
  rcases h.check_cases table with hok | ⟨g, hg⟩
  · rw [hok] at hf
    cases hf
  · rw [hg] at hf
    cases hf
    rfl

end Tree

/-- The leaf declares a new variable of a known type, and its initializer fails when the variable
has been inserted. -/
inductive InitializerFails (table : SymbolTable) (f : DeclarationFault) : Tree → Symbol → Prop
  | mk {name typeName type : String} {typeLine line : Nat} {init : Tree} {now : SymbolTable}
      (htype : table.lookup? typeName = some (.basicType type)) (hname : table.lookup? name = none)
      (hinit : init.check.run (table.insert (.variable name (.basicType type))) = .error f now) :
      InitializerFails table f (.declaration name typeName typeLine (some init) line)
        (.variable name (.basicType type))

namespace Tree

theorem check_head_cases (name typeName : String) (typeLine line : Nat) (table : SymbolTable) :
    (∃ type, table.lookup? typeName = some (.basicType type) ∧ table.lookup? name = none ∧
      (Occurrence.declared name typeName typeLine line).check.run table =
        .ok () (table.insert (.variable name (.basicType type)))) ∨
    (¬ (Occurrence.declared name typeName typeLine line).Proper table [] ∧
      ∃ f, (Occurrence.declared name typeName typeLine line).check.run table = .error f table) := by
  by_cases hproper : (Occurrence.declared name typeName typeLine line).Proper table []
  · obtain ⟨htype, hname, -⟩ := hproper
    obtain ⟨type, hlookup⟩ := SymbolTable.knowsType_iff.mp htype
    refine .inl ⟨type, hlookup, hname, ?_⟩
    rw [Occurrence.check, EStateM.run_bind, Checker.run_resolveType hlookup]
    simp only [Checker.run_declare, if_pos hname]
  · exact .inr ⟨hproper, _, (Records.refl table).check_of_not_proper hproper⟩

/-- A leaf that fails leaves the table as it is, up to the variable whose initializer has failed. -/
theorem IsSimple.table_of_error {leaf : Tree} (h : leaf.IsSimple) {table now : SymbolTable}
    {f : DeclarationFault} (hf : leaf.check.run table = .error f now) :
    (∀ symbol, InitializerFails table f leaf symbol → now = table.insert symbol) ∧
      ((∀ symbol, ¬ InitializerFails table f leaf symbol) → now = table) := by
  cases h with
  | assignment h =>
    refine ⟨fun symbol hfails => (nomatch hfails), fun _ => ?_⟩
    rw [check, EStateM.run_bind] at hf
    rcases h.check_cases table with hvalue | ⟨g, hvalue⟩
    · rw [hvalue] at hf
      simp only [Checker.run_use] at hf
      split at hf
      · cases hf
        rfl
      · cases hf
    · rw [hvalue] at hf
      cases hf
      rfl
  | declaration h =>
    obtain ⟨hinit⟩ := h
    rename_i name type typeLine line init
    cases init with
    | none =>
      refine ⟨fun symbol hfails => (nomatch hfails), fun _ => ?_⟩
      have hcheck : (Tree.declaration name type.name typeLine none line).check =
          (Occurrence.declared name type.name typeLine line).check := by
        rw [check, Occurrence.check]
      rw [hcheck] at hf
      rcases check_head_cases name type.name typeLine line table with
        ⟨_, -, -, hhead⟩ | ⟨-, g, hhead⟩
      · rw [hhead] at hf
        cases hf
      · rw [hhead] at hf
        cases hf
        rfl
    | some init =>
      have hcheck : (Tree.declaration name type.name typeLine (some init) line).check =
          (Occurrence.declared name type.name typeLine line).check >>= fun _ => init.check := by
        rw [check, Occurrence.check, bind_assoc]
      rw [hcheck, EStateM.run_bind] at hf
      rcases check_head_cases name type.name typeLine line table with
        ⟨known, htype, hname, hhead⟩ | ⟨hnot, g, hhead⟩
      · rw [hhead] at hf
        have hnow := (hinit init rfl).table_of_error hf
        refine ⟨?_, fun hnone => absurd (.mk htype hname hf) (hnone _)⟩
        rintro _ ⟨htype', -, -⟩
        rw [htype] at htype'
        cases htype'
        exact hnow
      · rw [hhead] at hf
        cases hf
        refine ⟨?_, fun _ => rfl⟩
        rintro _ ⟨htype, hname, -⟩
        have hknown := SymbolTable.knowsType_iff.mpr ⟨_, htype⟩
        exact absurd ⟨hknown, hname, List.not_mem_nil⟩ hnot

end Tree

theorem StopsAt.mem {ε σ : Type} {walk : Tree → EStateM ε σ Unit} {trees : List Tree}
    {start mid last : σ} {leaf : Tree} {f : ε} (h : StopsAt walk trees start leaf mid f last) :
    leaf ∈ trees := by
  obtain ⟨before, after, rfl, -, -⟩ := h
  exact List.mem_append_right _ List.mem_cons_self

/-- Blocks make no difference: evaluating and checking go along the leaves. A program stops at the
first leaf that fails, with the variables as the leaves before it have left them. The table is as
those leaves have left it too, with one variable more exactly if its own initializer has failed. -/
theorem walk_eq_forM_leaves (tree : Tree) :
    (∀ children line, tree = .block children line →
      tree.eval = forM tree.leaves Tree.effect >>= fun _ => pure none) ∧
    tree.check = forM tree.leaves Tree.check ∧
    ∀ source, Program.parse source = .ok tree →
      (∀ env f env', tree.eval.run env = .error f env' ↔
        ∃ leaf mid, StopsAt Tree.effect tree.leaves env leaf mid f env') ∧
      (∀ env leaf mid f env', StopsAt Tree.effect tree.leaves env leaf mid f env' → env' = mid) ∧
      (∀ table f now, tree.check.run table = .error f now ↔
        ∃ leaf mid, StopsAt Tree.check tree.leaves table leaf mid f now) ∧
      ∀ table leaf mid f now, StopsAt Tree.check tree.leaves table leaf mid f now →
        (∀ symbol, InitializerFails mid f leaf symbol → now = mid.insert symbol) ∧
        ((∀ symbol, ¬ InitializerFails mid f leaf symbol) → now = mid) := by
  refine ⟨?_, dissolves_check.eq_forM tree, fun source hparse => ?_⟩
  · rintro children line rfl
    exact eval_block_eq children line
  have hsimple := (Program.isStatement_of_parse hparse).isSimple
  refine ⟨fun env f env' => run_eval_eq_error_iff, ?_, fun table f now => run_check_eq_error_iff, ?_⟩
  · intro env leaf mid f env' hstops
    have hleaf := hsimple leaf hstops.mem
    obtain ⟨before, after, -, -, hfails⟩ := hstops
    exact hleaf.env_of_error (Tree.run_effect_eq_error_iff.mp hfails)
  · intro table leaf mid f now hstops
    have hleaf := hsimple leaf hstops.mem
    obtain ⟨before, after, -, -, hfails⟩ := hstops
    exact hleaf.table_of_error hfails

/-- The variable in the inner block is in the table although its initializer has failed. -/
theorem walk_eq_forM_leaves_failing_initializer :
    ∃ tree now, Program.parse "main \x7bvar a: Int; \x7bvar b: Int = c\x7d\x7d" = .ok tree ∧
      tree.check.run .initial = .error (.undeclared "c" 1) now ∧
      now = (SymbolTable.initial.insert (.variable "a" (.basicType "Int"))).insert
        (.variable "b" (.basicType "Int")) := by
  have hparse : Program.parse "main \x7bvar a: Int; \x7bvar b: Int = c\x7d\x7d" =
      .ok (.block [.block [.declaration "a" "Int" 1 none 1] 1,
        .block [.block [.declaration "b" "Int" 1 (some (.variable "c" 1)) 1] 1] 1] 1) := by
    refine Program.parse_eq_ok_iff.mpr ⟨⟨[⟨.keyword .main, 1⟩, ⟨.mark .openBrace, 1⟩,
      ⟨.keyword .var, 1⟩, ⟨.name "a", 1⟩, ⟨.mark .colon, 1⟩, ⟨.type .int, 1⟩, ⟨.mark .semicolon, 1⟩,
      ⟨.mark .openBrace, 1⟩, ⟨.keyword .var, 1⟩, ⟨.name "b", 1⟩, ⟨.mark .colon, 1⟩, ⟨.type .int, 1⟩,
      ⟨.mark .equals, 1⟩, ⟨.name "c", 1⟩, ⟨.mark .closeBrace, 1⟩, ⟨.mark .closeBrace, 1⟩], 1⟩,
      TokenStream.toTokenList_ofString (by rfl), ?_⟩
    exact .mk (.block (.more (.declarations (.one (.mk .missing)))
      (.one (.block (.one (.declarations (.one (.mk (.given (.one (.one .name)))))))))))
  obtain ⟨-, -, hprogram⟩ := walk_eq_forM_leaves _
  obtain ⟨-, -, hcheck, htable⟩ := hprogram _ hparse
  have hstops : StopsAt Tree.check
      [.declaration "a" "Int" 1 none 1, .declaration "b" "Int" 1 (some (.variable "c" 1)) 1] .initial
      (.declaration "b" "Int" 1 (some (.variable "c" 1)) 1)
      (SymbolTable.initial.insert (.variable "a" (.basicType "Int"))) (.undeclared "c" 1) _ :=
    ⟨[.declaration "a" "Int" 1 none 1], [], rfl, rfl, rfl⟩
  exact ⟨_, _, hparse, (hcheck _ _ _).mpr ⟨_, _, hstops⟩,
    (htable _ _ _ _ _ hstops).1 _ (.mk rfl rfl rfl)⟩

end Primer
