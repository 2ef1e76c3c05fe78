import Primer.Proofs.Checking.Names
import Primer.Proofs.Grammar.Recognition
import Primer.Proofs.Lexing.Steps
import Primer.Proofs.Programs

/-! # What a checked program reads

A program that has passed the check reads declared variables only. Such a variable may still have
no value, if its declaration gives it none or reads the variable itself. If no declaration does so,
then each read is preceded by a write.
-/
namespace Primer

mutual

/-- The declarations outside of the bodies of procedures, each with its initializer. -/
def Tree.declarations : Tree → List (String × Option Tree)
  | .literal .. => []
  | .binary left _ right _ => left.declarations ++ right.declarations
  | .signed _ operand _ => operand.declarations
  | .variable .. => []
  | .assignment _ value _ => value.declarations
  | .declaration name _ _ none _ => [(name, none)]
  | .declaration name _ _ (some init) _ => (name, some init) :: init.declarations
  | .procedure .. => []
  | .block children _ => declarationsAll children
  | .empty => []

def declarationsAll : List Tree → List (String × Option Tree)
  | [] => []
  | tree :: others => tree.declarations ++ declarationsAll others

end

/-- Each variable gets a value by its declaration that does not depend on the variable itself. -/
def GiveValues (declarations : List (String × Option Tree)) : Prop :=
  ∀ name init, (name, init) ∈ declarations → ∃ tree, init = some tree ∧ name ∉ tree.names

/-- Each name that is used is one of these or was declared before. -/
def UsesKnown (known : String → Prop) (occurrences : List Occurrence) : Prop :=
  AtEach (fun before o => ∀ name line, o = .used name line →
    known name ∨ name ∈ declaredNames before) occurrences

/-- Each variable that is loaded is one of these or was stored before. -/
def LoadsWritten (written : String → Prop) (code : List Instruction) : Prop :=
  AtEach (fun before i => ∀ name line, i = .load name line →
    written name ∨ .store name ∈ before) code

theorem giveValues_append {d d' : List (String × Option Tree)} :
    GiveValues (d ++ d') ↔ GiveValues d ∧ GiveValues d' := by
  simp only [GiveValues, List.mem_append, or_imp, forall_and]

theorem GiveValues.tail {d : String × Option Tree} {ds : List (String × Option Tree)}
    (h : GiveValues (d :: ds)) : GiveValues ds :=
  fun name init hmem => h name init (List.mem_cons_of_mem _ hmem)

section
variable {known written pending : String → Prop} {l r : List Occurrence} {c c' : List Instruction}

theorem usesKnown_append :
    UsesKnown known (l ++ r) ↔
      UsesKnown known l ∧ UsesKnown (fun x => known x ∨ x ∈ declaredNames l) r := by
  simp only [UsesKnown, atEach_append, declaredNames_append, List.mem_append, or_assoc]

theorem loadsWritten_append :
    LoadsWritten written (c ++ c') ↔
      LoadsWritten written c ∧ LoadsWritten (fun x => written x ∨ .store x ∈ c) c' := by
  simp only [LoadsWritten, atEach_append, List.mem_append, or_assoc]

theorem known_after (h : ∀ x, known x → written x ∨ pending x)
    (hstore : ∀ x ∈ declaredNames l, .store x ∈ c) :
    ∀ x, known x ∨ x ∈ declaredNames l → (written x ∨ .store x ∈ c) ∨ pending x := by
  rintro x (hx | hx)
  · exact (h x hx).imp_left .inl
  · exact .inl (.inr (hstore x hx))

theorem LoadsWritten.of_no_load (h : ∀ name line, .load name line ∉ c) : LoadsWritten written c := by
  rintro before i after rfl name line rfl
  exact absurd (by simp) (h name line)

theorem LoadsWritten.demanding {tree : Tree} (h : LoadsWritten written tree.code) :
    LoadsWritten written (tree.code ++ tree.demanded) := by
  refine loadsWritten_append.mpr ⟨h, .of_no_load fun name line hmem => ?_⟩
  cases eq_refuse_of_mem_demanded hmem

theorem LoadsWritten.ignoring {tree : Tree} (h : LoadsWritten written tree.code) :
    LoadsWritten written (tree.code ++ tree.ignored) := by
  refine loadsWritten_append.mpr ⟨h, .of_no_load fun name line hmem => ?_⟩
  cases eq_drop_of_mem_ignored hmem

theorem LoadsWritten.concat {i : Instruction} (h : LoadsWritten written c)
    (hi : ∀ name line, i ≠ .load name line) : LoadsWritten written (c ++ [i]) := by
  refine loadsWritten_append.mpr ⟨h, .of_no_load fun name line hmem => ?_⟩
  exact hi name line (List.mem_singleton.mp hmem).symm

end

mutual

theorem store_of_declared : ∀ (tree : Tree) {name : String}, GiveValues tree.declarations →
    name ∈ declaredNames tree.occurrences → .store name ∈ tree.code
  | .literal .., name, _, h => by simp [Tree.occurrences] at h
  | .binary left _ right _, name, hgive, h => by
    obtain ⟨hleft, hright⟩ := giveValues_append.mp hgive
    rw [Tree.occurrences, declaredNames_append, List.mem_append] at h
    rcases h with h | h
    · have hstore := store_of_declared left hleft h
      simp [Tree.code, hstore]
    · have hstore := store_of_declared right hright h
      simp [Tree.code, hstore]
  | .signed _ operand _, name, hgive, h => by
    have hstore := store_of_declared operand hgive h
    simp [Tree.code, hstore]
  | .variable .., name, _, h => by simp [Tree.occurrences] at h
  | .assignment _ value _, name, hgive, h => by
    have hvalue : name ∈ declaredNames value.occurrences := by simpa [Tree.occurrences] using h
    have hstore := store_of_declared value hgive hvalue
    simp [Tree.code, hstore]
  | .declaration x _ _ none _, name, hgive, h => by
    obtain ⟨init, hinit, -⟩ := hgive x none (by simp [Tree.declarations])
    cases hinit
  | .declaration x _ _ (some init) _, name, hgive, h => by
    rw [Tree.occurrences, declaredNames_cons_declared, List.mem_cons] at h
    rcases h with rfl | h
    · simp [Tree.code]
    · have hstore := store_of_declared init hgive.tail h
      simp [Tree.code, hstore]
  | .procedure .., name, _, h => by simp [Tree.occurrences] at h
  | .block children _, name, hgive, h => store_of_declaredAll children hgive h
  | .empty, name, _, h => by simp [Tree.occurrences] at h

theorem store_of_declaredAll : ∀ (trees : List Tree) {name : String},
    GiveValues (declarationsAll trees) → name ∈ declaredNames (occurrencesAll trees) →
    .store name ∈ codeAll trees
  | [], name, _, h => by simp [occurrencesAll] at h
  | tree :: others, name, hgive, h => by
    obtain ⟨htree, hothers⟩ := giveValues_append.mp hgive
    rw [occurrencesAll, declaredNames_append, List.mem_append] at h
    rcases h with h | h
    · have hstore := store_of_declared tree htree h
      simp [codeAll, hstore]
    · have hstore := store_of_declaredAll others hothers h
      simp [codeAll, hstore]

end

mutual

/-- The names in `pending` are declared, but their values are still being computed. They are not
mentioned meanwhile, and all other known names have been written. -/
theorem loadsWritten_code : ∀ (tree : Tree) {known written pending : String → Prop},
    (∀ x, known x → written x ∨ pending x) → (∀ x, pending x → x ∉ tree.names) →
    GiveValues tree.declarations → UsesKnown known tree.occurrences →
    LoadsWritten written tree.code
  | .literal .., known, written, pending, _, _, _, _ =>
    .of_no_load fun name line h => by simp [Tree.code] at h
  | .binary left op right _, known, written, pending, hknown, hpending, hgive, huses => by
    obtain ⟨hgiveLeft, hgiveRight⟩ := giveValues_append.mp hgive
    obtain ⟨husesLeft, husesRight⟩ := usesKnown_append.mp huses
    simp only [Tree.names, Tree.occurrences, List.map_append, List.mem_append, not_or] at hpending
    have hleft := loadsWritten_code left hknown (fun x hx => (hpending x hx).1) hgiveLeft husesLeft
    have hknown' := known_after hknown fun x hx =>
      List.mem_append_left left.demanded (store_of_declared left hgiveLeft hx)
    have hright := loadsWritten_code right hknown' (fun x hx => (hpending x hx).2) hgiveRight
      husesRight
    have hboth := loadsWritten_append.mpr ⟨hleft.demanding, hright.demanding⟩
    rw [← List.append_assoc] at hboth
    exact hboth.concat nofun
  | .signed _ operand _, known, written, pending, hknown, hpending, hgive, huses =>
    (loadsWritten_code operand hknown hpending hgive huses).demanding.concat nofun
  | .variable x line, known, written, pending, hknown, hpending, _, huses => by
    refine atEach_singleton.mpr ?_
    rintro name _ ⟨⟩
    have hx : known x := by simpa using atEach_singleton.mp huses x line rfl
    rcases hknown x hx with hx | hx
    · exact .inl hx
    · exact absurd (by simp [Tree.names, Tree.occurrences, Occurrence.name]) (hpending x hx)
  | .assignment x value _, known, written, pending, hknown, hpending, hgive, huses => by
    obtain ⟨hvalue, -⟩ := usesKnown_append.mp huses
    simp only [Tree.names, Tree.occurrences, List.map_append, List.mem_append, not_or] at hpending
    have hloads := loadsWritten_code value hknown (fun y hy => (hpending y hy).1) hgive hvalue
    exact hloads.demanding.concat nofun
  | .declaration _ _ _ none _, known, written, pending, _, _, _, _ =>
    .of_no_load fun name line h => by simp [Tree.code] at h
  | .declaration x typeName typeLine (some init) line, known, written, pending, hknown, hpending,
      hgive, huses => by
    obtain ⟨-, hinit⟩ := (usesKnown_append (l := [.declared x typeName typeLine line])).mp huses
    obtain ⟨_, ⟨⟩, hself⟩ := hgive x (some init) (by simp [Tree.declarations])
    simp only [Tree.names, Tree.occurrences, List.map_cons, List.mem_cons, not_or] at hpending
    have hpending' : ∀ y, pending y ∨ y = x → y ∉ init.names := by
      rintro y (hy | rfl)
      · exact (hpending y hy).2
      · exact hself
    have hloads : LoadsWritten written init.code := by
      refine loadsWritten_code init ?_ hpending' hgive.tail hinit
      rintro y (hy | hy)
      · exact (hknown y hy).imp_right .inl
      · exact .inr (.inr (by simpa using hy))
    exact hloads.demanding.concat nofun
  | .procedure .., known, written, pending, _, _, _, _ =>
    .of_no_load fun name line h => by simp [Tree.code] at h
  | .block children _, known, written, pending, hknown, hpending, hgive, huses =>
    loadsWritten_codeAll children hknown hpending hgive huses
  | .empty, known, written, pending, _, _, _, _ =>
    .of_no_load fun name line h => by simp [Tree.code] at h

theorem loadsWritten_codeAll : ∀ (trees : List Tree) {known written pending : String → Prop},
    (∀ x, known x → written x ∨ pending x) → (∀ x, pending x → x ∉ namesAll trees) →
    GiveValues (declarationsAll trees) → UsesKnown known (occurrencesAll trees) →
    LoadsWritten written (codeAll trees)
  | [], known, written, pending, _, _, _, _ =>
    .of_no_load fun name line h => by simp [codeAll] at h
  | tree :: others, known, written, pending, hknown, hpending, hgive, huses => by
    obtain ⟨hgiveTree, hgiveOthers⟩ := giveValues_append.mp hgive
    obtain ⟨husesTree, husesOthers⟩ := usesKnown_append.mp huses
    simp only [namesAll, occurrencesAll, List.map_append, List.mem_append, not_or] at hpending
    have htree := loadsWritten_code tree hknown (fun x hx => (hpending x hx).1) hgiveTree husesTree
    have hknown' := known_after hknown fun x hx =>
      List.mem_append_left tree.ignored (store_of_declared tree hgiveTree hx)
    have hothers := loadsWritten_codeAll others hknown' (fun x hx => (hpending x hx).2) hgiveOthers
      husesOthers
    exact loadsWritten_append.mpr ⟨htree.ignoring, hothers⟩

end

/-- The evaluation stops where it reads this name, which it has not written before. -/
structure Tree.StopsUnwritten (tree : Tree) (name : String) (line : Nat)
    (before after : List Instruction) (m : Machine) : Prop where
  realizes : Realizes tree.code [] tree.eval (tree.Puts [])
  code_eq : tree.code = before ++ .load name line :: after
  executed : (execute before).run ⟨.empty, []⟩ = .ok () m
  evaluated : tree.eval.run .empty = .error (.unbound name line) m.environment
  unbound : m.environment.get? name = none
  unwritten : .store name ∉ before

theorem exists_stopsUnwritten {tree : Tree} {name : String} {line : Nat} {env : Environment}
    (h : tree.eval.run .empty = .error (.unbound name line) env) :
    ∃ before after m, tree.StopsUnwritten name line before after m := by
  obtain ⟨before, i, after, m, hsplit, hbefore, rfl, hfails⟩ := exists_failing h
  cases hfails with
  | load hnone =>
    obtain ⟨-, hunwritten⟩ := (execute_environment hbefore name).mp hnone
    exact ⟨before, after, m, realizes_eval tree [], hsplit, hbefore, h, hnone, hunwritten⟩

theorem usesKnown_of_check {tree : Tree} {start now : SymbolTable}
    (h : tree.check.run start = .ok () now) :
    UsesKnown (fun x => start.lookup? x ≠ none) tree.occurrences := by
  rw [check_eq_checkAlong] at h
  obtain ⟨hproper, -⟩ := proper_of_checkAlong h
  rintro before o after hsplit name line rfl
  exact hproper before _ after hsplit

namespace Tree.StopsUnwritten
variable {tree : Tree} {name : String} {line : Nat} {before after : List Instruction} {m : Machine}
  {start now : SymbolTable}

theorem mem_names (h : tree.StopsUnwritten name line before after m) : name ∈ tree.names := by
  have hload : .load name line ∈ tree.code := by
    rw [h.code_eq]
    exact List.mem_append_right _ List.mem_cons_self
  exact mem_names_of_mem_code tree hload rfl

theorem lookup?_ne_none (h : tree.StopsUnwritten name line before after m)
    (hcheck : tree.check.run start = .ok () now) (hgive : GiveValues tree.declarations) :
    start.lookup? name ≠ none := by
  have hloads : LoadsWritten (fun x => start.lookup? x ≠ none) tree.code :=
    loadsWritten_code tree (fun _ => .inl) (fun _ => False.elim) hgive (usesKnown_of_check hcheck)
  rcases hloads before _ after h.code_eq name line rfl with hstart | hstore
  · exact hstart
  · exact absurd hstore h.unwritten

end Tree.StopsUnwritten

/-- A program that has passed the check can only fail to read a variable of its own which it has not
written before. If its declarations give values to all variables, then it cannot fail to read any,
except where the name of a type was not recognised as one. -/
theorem checked_program_reads {source : String} {table : SymbolTable}
    (h : Program.check source = .ok table) :
    Program.run source = Program.interpret source ∧
    ∃ tree, Program.parse source = .ok tree ∧
      ∀ name line, Program.interpret source = .error (.evaluation (.unbound name line)) →
        table.Holds name ∧
        (∃ before after m, tree.StopsUnwritten name line before after m) ∧
        (GiveValues tree.declarations → ∃ type : BasicType, name = type.name) := by
  obtain ⟨tree, hparse, htree⟩ := Program.exists_tree_of_check h
  refine ⟨Program.run_of_check h, tree, hparse, ?_⟩
  intro name line hinterpret
  rw [Program.interpret_of_parse hparse, Tree.outcome_eq_evaluation_iff] at hinterpret
  obtain ⟨env, heval⟩ := hinterpret
  obtain ⟨before, after, m, hstops⟩ := exists_stopsUnwritten heval
  refine ⟨holds_of_check htree hstops.mem_names, ⟨before, after, m, hstops⟩, ?_⟩
  intro hgive
  rcases lookup?_initial name with hnone | ⟨type, htype, -⟩
  · exact absurd hnone (hstops.lookup?_ne_none htree hgive)
  · exact ⟨type, htype⟩

/-- A variable is declared within its own initializer, but has no value there. -/
theorem checked_program_reads_own_initializer :
    ∃ table, Program.check "main var x: Int = x" = .ok table ∧
      Program.run "main var x: Int = x" = .error (.evaluation (.unbound "x" 1)) ∧
      table.Holds "x" := by
  have hparse : Program.parse "main var x: Int = x" =
      .ok (.block [.declaration "x" "Int" 1 (some (.variable "x" 1)) 1] 1) := by
    refine Program.parse_eq_ok_iff.mpr ⟨⟨[⟨.keyword .main, 1⟩, ⟨.keyword .var, 1⟩, ⟨.name "x", 1⟩,
      ⟨.mark .colon, 1⟩, ⟨.type .int, 1⟩, ⟨.mark .equals, 1⟩, ⟨.name "x", 1⟩], 1⟩,
      TokenStream.toTokenList_ofString (by rfl), ?_⟩
    exact .mk (.declarations (.one (.mk (.given (.one (.one .name))))))
  have hcheck : Program.check "main var x: Int = x" =
      .ok (SymbolTable.initial.insert (.variable "x" (.basicType "Int"))) := by
    rw [Program.check_of_parse hparse]
    rfl
  have hinterpret : Program.interpret "main var x: Int = x" =
      .error (.evaluation (.unbound "x" 1)) := by
    rw [Program.interpret_of_parse hparse]
    rfl
  obtain ⟨hrun, tree, -, hreads⟩ := checked_program_reads hcheck
  obtain ⟨hholds, -, -⟩ := hreads "x" 1 hinterpret
  exact ⟨_, hcheck, hrun.trans hinterpret, hholds⟩

/-- Before a no-break space, `Int` is read as the name of a variable that nobody has declared, and
nevertheless the check lets it pass. -/
theorem checked_program_reads_type_name :
    ∃ tree table, Program.parse "main Int\u00a0= Int\u00a0" = .ok tree ∧
      Program.check "main Int\u00a0= Int\u00a0" = .ok table ∧
      Program.interpret "main Int\u00a0= Int\u00a0" = .error (.evaluation (.unbound "Int" 1)) ∧
      table.lookup? "Int" = some (.basicType "Int") ∧ GiveValues tree.declarations := by
  have hparse : Program.parse "main Int\u00a0= Int\u00a0" =
      .ok (.assignment "Int" (.variable "Int" 1) 1) := by
    refine Program.parse_eq_ok_iff.mpr ⟨⟨[⟨.keyword .main, 1⟩, ⟨.name "Int", 1⟩,
      ⟨.mark .equals, 1⟩, ⟨.name "Int", 1⟩], 1⟩, TokenStream.toTokenList_ofString (by rfl), ?_⟩
    exact .mk (.assignment (.one (.one .name)))
  refine ⟨_, .initial, hparse, ?_, ?_, by rfl, nofun⟩
  · rw [Program.check_of_parse hparse]
    rfl
  · rw [Program.interpret_of_parse hparse]
    rfl

end Primer
