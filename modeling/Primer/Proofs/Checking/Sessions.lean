import Primer.Proofs.Checking.Names
import Primer.Proofs.Grammar.Recognition
import Primer.Proofs.Lexing.Steps
import Primer.Proofs.Programs

/-! # Sessions of a checker and an interpreter

A checker and an interpreter that are kept over many trees share nothing but the order of their
calls. If each tree is checked before it is evaluated, then all variables that have a value are in
the symbol table, also after checks and evaluations that have failed halfway.
-/
namespace Primer

structure Session where
  table : SymbolTable
  environment : Environment
  /-- The trees that have passed a check. -/
  passed : List Tree

namespace Session

def new : Session := ⟨.initial, .empty, []⟩

/-- One call. A tree is evaluated only if it has passed a check before. -/
inductive Step : Session → Session → Prop
  | pass {s : Session} {tree : Tree} {table : SymbolTable}
      (h : tree.check.run s.table = .ok () table) :
      Step s ⟨table, s.environment, tree :: s.passed⟩
  | refuse {s : Session} {tree : Tree} {table : SymbolTable} {f : DeclarationFault}
      (h : tree.check.run s.table = .error f table) : Step s ⟨table, s.environment, s.passed⟩
  | call {s : Session} (call : Call) (h : call.tree ∈ s.passed) :
      Step s ⟨s.table, finalState (call.run s.environment), s.passed⟩

inductive Reachable : Session → Prop
  | new : Reachable new
  | step {s s' : Session} (h : Reachable s) (hstep : Step s s') : Reachable s'

/-- All variables with a value and all names of checked trees are in the table. -/
structure Sound (s : Session) : Prop where
  environment : ∀ name, s.environment.get? name ≠ none → s.table.lookup? name ≠ none
  passed : ∀ tree ∈ s.passed, ∀ name ∈ tree.names, s.table.lookup? name ≠ none

end Session

theorem mem_names_of_eval {tree : Tree} {env : Environment} {name : String}
    (h : (finalState (tree.eval.run env)).get? name ≠ none) :
    env.get? name ≠ none ∨ name ∈ tree.names := by
  obtain ⟨before, after, m, hcode, hrun, henv⟩ := exists_executed tree env
  rw [← henv, ne_eq, execute_environment hrun, not_and_or, not_not] at h
  rcases h with h | h
  · exact .inl h
  · have hstore : .store name ∈ tree.code := by
      rw [hcode]
      exact List.mem_append_left _ h
    exact .inr (mem_names_of_mem_code tree hstore rfl)

namespace Session
variable {s s' : Session}

theorem Sound.new : Sound new := by
  refine ⟨?_, ?_⟩
  · intro name h
    simp [Session.new] at h
  · intro tree h
    simp [Session.new] at h

theorem Sound.mono (hs : Sound s) {table : SymbolTable}
    (h : ∀ name, s.table.lookup? name ≠ none → table.lookup? name ≠ none) :
    Sound ⟨table, s.environment, s.passed⟩ := by
  refine ⟨fun name hname => h name (hs.environment name hname), ?_⟩
  intro tree htree name hname
  exact h name (hs.passed tree htree name hname)

theorem Sound.pass (hs : Sound s) {tree : Tree}
    (h : ∀ name ∈ tree.names, s.table.lookup? name ≠ none) :
    Sound ⟨s.table, s.environment, tree :: s.passed⟩ := by
  refine ⟨hs.environment, ?_⟩
  intro other hother
  rcases List.mem_cons.mp hother with rfl | hother
  · exact h
  · exact hs.passed other hother

theorem Sound.step (hs : Sound s) (h : Step s s') : Sound s' := by
  cases h with
  | @pass tree table hcheck =>
    have hkept := check_keeps tree s.table
    rw [hcheck] at hkept
    have hmono := hs.mono fun name hname => (hkept name hname).trans_ne hname
    exact hmono.pass fun name hname => lookup?_ne_none_of_check hcheck hname
  | @refuse tree table f hcheck =>
    have hkept := check_keeps tree s.table
    rw [hcheck] at hkept
    exact hs.mono fun name hname => (hkept name hname).trans_ne hname
  | call call hcall =>
    refine ⟨?_, hs.passed⟩
    intro name hname
    rcases mem_names_of_eval hname with hstart | hmem
    · cases call with
      | interpret tree => exact absurd (NameMap.get?_empty name) hstart
      | eval tree => exact hs.environment name hstart
    · exact hs.passed call.tree hcall name hmem

theorem Reachable.sound (h : Reachable s) : Sound s := by
  induction h with
  | new => exact .new
  | step _ hstep ih => exact ih.step hstep

end Session

theorem Program.holds_of_run {source : String} {outcome : Outcome}
    (h : Program.run source = .ok outcome) :
    ∃ table, Program.check source = .ok table ∧
      ∀ name, outcome.environment.get? name ≠ none → table.Holds name := by
  obtain ⟨table, hcheck, hinterpret⟩ := Program.exists_table_of_run h
  obtain ⟨tree, hparse, htree⟩ := Program.exists_tree_of_check hcheck
  refine ⟨table, hcheck, ?_⟩
  intro name hname
  rw [Program.interpret_of_parse hparse, Tree.outcome_eq_ok_iff] at hinterpret
  have hbound : (finalState (tree.eval.run .empty)).get? name ≠ none := by
    rw [hinterpret]
    exact hname
  rcases mem_names_of_eval hbound with hempty | hmem
  · exact absurd (NameMap.get?_empty name) hempty
  · exact holds_of_check htree hmem

/-- In each session, all variables with a value are in the symbol table. Those of a program are
declared in it as variables, except where the name of a type was not recognised as one. -/
theorem environment_within_table (s : Session) (source : String) :
    (s.Reachable → ∀ name, s.environment.get? name ≠ none → s.table.lookup? name ≠ none) ∧
    ∀ outcome, Program.run source = .ok outcome →
      ∃ table, Program.check source = .ok table ∧
        ∀ name, outcome.environment.get? name ≠ none → table.Holds name :=
  ⟨fun h => h.sound.environment, fun _ h => Program.holds_of_run h⟩

/-- An evaluation that has failed behind its first declaration, and a program that has not. -/
theorem environment_within_table_after_failure :
    (∃ (s : Session) (tree : Tree), s.Reachable ∧ tree ∈ s.passed ∧
      (Call.interpret tree).run .empty = .error (.unbound "y" 1) s.environment ∧
      s.environment.get? "x" = some (.int 7) ∧ s.table.lookup? "x" ≠ none) ∧
    ∃ outcome table, Program.run "main var x: Int = 7" = .ok outcome ∧
      Program.check "main var x: Int = 7" = .ok table ∧
      outcome.environment.get? "x" = some (.int 7) ∧ table.Holds "x" := by
  constructor
  · let tree : Tree := .block [.declaration "x" "Int" 1 (some (.literal (.int 7) 1)) 1,
      .declaration "y" "Int" 1 none 1, .assignment "x" (.variable "y" 1) 1] 1
    let x : Symbol := .variable "x" (.basicType "Int")
    let y : Symbol := .variable "y" (.basicType "Int")
    have hpass : Session.new.Step
        ⟨(SymbolTable.initial.insert x).insert y, .empty, [tree]⟩ := .pass (by rfl)
    have hreach := (Session.Reachable.new.step hpass).step
      (.call (.interpret tree) (List.mem_singleton_self tree))
    have hx : (finalState ((Call.interpret tree).run .empty)).get? "x" = some (.int 7) := by rfl
    obtain ⟨hsession, -⟩ := environment_within_table _ ""
    exact ⟨_, tree, hreach, List.mem_singleton_self tree, by rfl, hx,
      hsession hreach "x" (hx.trans_ne (Option.some_ne_none _))⟩
  · have hparse : Program.parse "main var x: Int = 7" =
        .ok (.block [.declaration "x" "Int" 1 (some (.literal (.int 7) 1)) 1] 1) := by
      refine Program.parse_eq_ok_iff.mpr ⟨⟨[⟨.keyword .main, 1⟩, ⟨.keyword .var, 1⟩, ⟨.name "x", 1⟩,
        ⟨.mark .colon, 1⟩, ⟨.type .int, 1⟩, ⟨.mark .equals, 1⟩, ⟨.int 7, 1⟩], 1⟩,
        TokenStream.toTokenList_ofString (by rfl), ?_⟩
      exact .mk (.declarations (.one (.mk (.given (.one (.one .int))))))
    have hrun : Program.run "main var x: Int = 7" =
        .ok ⟨none, NameMap.empty.insert "x" (.int 7)⟩ := by
      rw [Program.run, hparse]
      rfl
    have hx : (NameMap.empty.insert "x" (Value.int 7)).get? "x" = some (.int 7) := by rfl
    obtain ⟨-, hprogram⟩ := environment_within_table .new "main var x: Int = 7"
    obtain ⟨table, hcheck, hholds⟩ := hprogram _ hrun
    exact ⟨_, table, hrun, hcheck, hx, hholds "x" (hx.trans_ne (Option.some_ne_none _))⟩

/-- Before a no-break space, `Int` is read as a name. It then gets a value, although the table holds
no variable but the type. -/
theorem environment_within_table_type_name :
    ∃ outcome table, Program.run "main Int\u00a0= 1" = .ok outcome ∧
      Program.check "main Int\u00a0= 1" = .ok table ∧
      outcome.environment.get? "Int" = some (.int 1) ∧
      table.lookup? "Int" = some (.basicType "Int") := by
  have hparse : Program.parse "main Int\u00a0= 1" =
      .ok (.assignment "Int" (.literal (.int 1) 1) 1) := by
    refine Program.parse_eq_ok_iff.mpr ⟨⟨[⟨.keyword .main, 1⟩, ⟨.name "Int", 1⟩,
      ⟨.mark .equals, 1⟩, ⟨.int 1, 1⟩], 1⟩, TokenStream.toTokenList_ofString (by rfl), ?_⟩
    exact .mk (.assignment (.one (.one .int)))
  refine ⟨⟨none, NameMap.empty.insert "Int" (.int 1)⟩, .initial, ?_, ?_, by rfl, by rfl⟩
  · rw [Program.run, hparse]
    rfl
  · rw [Program.check_of_parse hparse]
    rfl

end Primer
