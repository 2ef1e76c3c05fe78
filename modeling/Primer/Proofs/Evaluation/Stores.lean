import Primer.Proofs.Grammar.Literals
import Primer.Proofs.Insertions
import Primer.Proofs.Leaves

/-! # What a program stores

The variables of a program get their values by assignments and by declarations with initializers.
Outside of procedures these are carried out in the order of the text, and nothing else changes a
variable. So what the evaluation of a program ends with are the values that were stored last.
-/
namespace Primer

namespace Tree

/-- The variable that the leaf gives a value, and the expression for it. -/
def store? : Tree → Option (String × Tree)
  | .assignment name value _ => some (name, value)
  | .declaration name _ _ (some init) _ => some (name, init)
  | _ => none

/-- The assignments and the declarations with initializers outside of procedures, in the order of
the text. -/
def stores (tree : Tree) : List (String × Tree) := tree.leaves.filterMap store?

end Tree

/-- The values that are stored one after the other. Each of them is that of its expression in the
environment which the stores before it have led to. -/
inductive Stored : Environment → List (String × Tree) → List (String × Value) → Prop
  | nil {env : Environment} : Stored env [] []
  | cons {env : Environment} {name : String} {tree : Tree} {value : Value}
      {stores : List (String × Tree)} {stored : List (String × Value)}
      (hvalue : tree.evalValue.run env = .ok value env)
      (hrest : Stored (env.insert name value) stores stored) :
      Stored env ((name, tree) :: stores) ((name, value) :: stored)

theorem Stored.names_eq {env : Environment} {stores : List (String × Tree)}
    {stored : List (String × Value)} (h : Stored env stores stored) :
    stored.map Prod.fst = stores.map Prod.fst := by
  induction h with
  | nil => rfl
  | cons _ _ ih => rw [List.map_cons, List.map_cons, ih]

namespace Tree

theorem IsExpression.env_of_store {tree : Tree} (h : tree.IsExpression) {name : String}
    {env env' : Environment} {result : Option Value}
    (hok : (do Evaluator.write name (← Evaluator.demand tree (← tree.eval)); return none :
        Evaluator (Option Value)).run env = .ok result env') :
    ∃ value, tree.evalValue.run env = .ok value env ∧ env' = env.insert name value := by
  rw [EStateM.run_bind] at hok
  rcases h.eval_cases env with ⟨value, hvalue⟩ | ⟨f, hf⟩
  · rw [hvalue] at hok
    cases hok
    exact ⟨value, run_evalValue hvalue, rfl⟩
  · rw [hf] at hok
    cases hok

theorem IsSimple.store_cases {leaf : Tree} (h : leaf.IsSimple) {env env' : Environment}
    {result : Option Value} (hok : leaf.eval.run env = .ok result env') :
    (leaf.store? = none ∧ env' = env) ∨
      ∃ name tree value, leaf.store? = some (name, tree) ∧
        tree.evalValue.run env = .ok value env ∧ env' = env.insert name value := by
  cases h with
  | assignment h =>
    rw [eval] at hok
    obtain ⟨value, hvalue, henv⟩ := h.env_of_store hok
    exact .inr ⟨_, _, value, rfl, hvalue, henv⟩
  | declaration h =>
    obtain ⟨hinit⟩ := h
    rename_i name type typeLine line init
    cases init with
    | none =>
      rw [eval] at hok
      cases hok
      exact .inl ⟨rfl, rfl⟩
    | some init =>
      rw [eval] at hok
      obtain ⟨value, hvalue, henv⟩ := (hinit init rfl).env_of_store hok
      exact .inr ⟨_, _, value, rfl, hvalue, henv⟩

end Tree

theorem stored_of_forM {leaves : List Tree} (h : ∀ leaf ∈ leaves, leaf.IsSimple)
    {env env' : Environment} (hok : (forM leaves Tree.effect).run env = .ok () env') :
    ∃ stored, Stored env (leaves.filterMap Tree.store?) stored ∧
      env' = env.insertAll Prod.fst Prod.snd stored := by
  induction leaves generalizing env with
  | nil =>
    cases hok
    exact ⟨[], .nil, rfl⟩
  | cons leaf leaves ih =>
    obtain ⟨hleaf, hleaves⟩ := List.forall_mem_cons.mp h
    rw [List.forM_cons, Tree.effect, EStateM.run_bind, EStateM.run_bind] at hok
    cases heval : leaf.eval.run env with
    | error f mid =>
      rw [heval] at hok
      cases hok
    | ok result mid =>
      rw [heval] at hok
      obtain ⟨stored, hstored, henv⟩ := ih hleaves hok
      rcases hleaf.store_cases heval with ⟨hnone, rfl⟩ | ⟨name, tree, value, hsome, hvalue, rfl⟩
      · rw [List.filterMap_cons_none hnone]
        exact ⟨stored, hstored, henv⟩
      · rw [List.filterMap_cons_some hsome]
        exact ⟨(name, value) :: stored, .cons hvalue hstored, henv⟩

theorem Tree.IsStatement.exists_stored {tree : Tree} (h : tree.IsStatement) {env env' : Environment}
    {result : Option Value} (hok : tree.eval.run env = .ok result env') :
    ∃ stored, Stored env tree.stores stored ∧ env' = env.insertAll Prod.fst Prod.snd stored := by
  refine stored_of_forM h.isSimple ?_
  rw [← dissolves_effect.eq_forM, Tree.effect, EStateM.run_bind, hok]
  rfl

mutual

theorem mem_identifiers_of_mem_leaves : ∀ (tree : Tree) {leaf : Tree} {name : String},
    leaf ∈ tree.leaves → name ∈ leaf.identifiers → name ∈ tree.identifiers
  | .block children _, _, _, hleaf, hname => mem_identifiersAll_of_mem_leaves children hleaf hname
  | .procedure .., _, _, hleaf, _ => by cases hleaf
  | .empty, _, _, hleaf, _ => by cases hleaf
  | .literal .., _, _, hleaf, hname | .binary .., _, _, hleaf, hname
  | .signed .., _, _, hleaf, hname | .variable .., _, _, hleaf, hname
  | .assignment .., _, _, hleaf, hname | .declaration .., _, _, hleaf, hname => by
    rwa [List.mem_singleton.mp hleaf] at hname

theorem mem_identifiersAll_of_mem_leaves : ∀ (trees : List Tree) {leaf : Tree} {name : String},
    leaf ∈ leavesAll trees → name ∈ leaf.identifiers → name ∈ identifiersAll trees
  | [], _, _, hleaf, _ => by cases hleaf
  | tree :: others, _, _, hleaf, hname => by
    rw [identifiersAll, List.mem_append]
    exact (List.mem_append.mp hleaf).imp (mem_identifiers_of_mem_leaves tree · hname)
      (mem_identifiersAll_of_mem_leaves others · hname)

end

theorem Tree.mem_identifiers_of_mem_stores {tree : Tree} {name : String}
    (h : name ∈ tree.stores.map Prod.fst) : name ∈ tree.identifiers := by
  obtain ⟨⟨_, value⟩, hmem, rfl⟩ := List.mem_map.mp h
  obtain ⟨leaf, hleaf, hstore⟩ := List.mem_filterMap.mp hmem
  refine mem_identifiers_of_mem_leaves tree hleaf ?_
  unfold store? at hstore
  split at hstore
  · cases hstore
    exact List.mem_cons_self
  · cases hstore
    exact List.mem_cons_self
  · cases hstore

end Primer
