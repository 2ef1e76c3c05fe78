import Primer.Checking
import Primer.Proofs.AtEach

/-! # Declarations before uses

Checking a tree is a walk along the names that occur in it. Whether an occurrence is proper depends
on the table at the start and on the occurrences before it only, so that the walk ends at the first
improper one, if there is any. The table in between holds what was in it at the start and the
variables that were declared on the way.
-/
namespace Primer

/-- An occurrence of a name outside of the bodies of procedures. -/
inductive Occurrence where
  | declared (name typeName : String) (typeLine line : Nat)
  | used (name : String) (line : Nat)
deriving DecidableEq

mutual

/-- The names that occur in the tree, in the order in which they are checked. -/
def Tree.occurrences : Tree → List Occurrence
  | .literal .. => []
  | .binary left _ right _ => left.occurrences ++ right.occurrences
  | .signed _ operand _ => operand.occurrences
  | .variable name line => [.used name line]
  | .assignment name value line => value.occurrences ++ [.used name line]
  | .declaration name typeName typeLine none line => [.declared name typeName typeLine line]
  | .declaration name typeName typeLine (some init) line =>
    .declared name typeName typeLine line :: init.occurrences
  | .procedure .. => []
  | .block children _ => occurrencesAll children
  | .empty => []

def occurrencesAll : List Tree → List Occurrence
  | [] => []
  | tree :: others => tree.occurrences ++ occurrencesAll others

end

def Occurrence.declaredName? : Occurrence → Option String
  | .declared name .. => some name
  | .used .. => none

def declaredNames (occurrences : List Occurrence) : List String :=
  occurrences.filterMap (·.declaredName?)

@[simp] theorem declaredNames_nil : declaredNames [] = [] := rfl

@[simp] theorem declaredNames_append (l r : List Occurrence) :
    declaredNames (l ++ r) = declaredNames l ++ declaredNames r :=
  List.filterMap_append

@[simp] theorem declaredNames_cons_declared (name typeName : String) (typeLine line : Nat)
    (l : List Occurrence) :
    declaredNames (.declared name typeName typeLine line :: l) = name :: declaredNames l := rfl

@[simp] theorem declaredNames_cons_used (name : String) (line : Nat) (l : List Occurrence) :
    declaredNames (.used name line :: l) = declaredNames l := rfl

def SymbolTable.knowsType (table : SymbolTable) (name : String) : Bool :=
  (table.lookup? name).any Symbol.isType

/-- A declaration needs a known type and a new name, and a use needs a name that is not new. -/
def Occurrence.Proper (table : SymbolTable) (past : List Occurrence) : Occurrence → Prop
  | .declared name typeName _ _ =>
    table.knowsType typeName ∧ table.lookup? name = none ∧ name ∉ declaredNames past
  | .used name _ => table.lookup? name ≠ none ∨ name ∈ declaredNames past

instance (table : SymbolTable) (past : List Occurrence) :
    ∀ o : Occurrence, Decidable (o.Proper table past)
  | .declared .. => inferInstanceAs (Decidable (_ ∧ _))
  | .used .. => inferInstanceAs (Decidable (_ ∨ _))

/-- The fault of an occurrence that is not proper. -/
def Occurrence.fault (table : SymbolTable) : Occurrence → DeclarationFault
  | .declared name typeName typeLine line =>
    if table.knowsType typeName then .duplicate name line else .unknownType typeName typeLine
  | .used name line => .undeclared name line

open Checker

def Occurrence.check : Occurrence → Checker Unit
  | .declared name typeName typeLine line => do
    declare name (← resolveType typeName typeLine) line
  | .used name line => use name line

def checkAlong : List Occurrence → Checker Unit
  | [] => pure ()
  | o :: others => do
    o.check
    checkAlong others

theorem checkAlong_append (l r : List Occurrence) :
    checkAlong (l ++ r) = checkAlong l >>= fun _ => checkAlong r := by
  induction l with
  | nil => simp [checkAlong]
  | cons o l ih => simp [checkAlong, ih]

theorem checkAlong_singleton (o : Occurrence) : checkAlong [o] = o.check := by
  simp [checkAlong]

mutual

theorem check_eq_checkAlong : ∀ tree : Tree, tree.check = checkAlong tree.occurrences
  | .literal .. => by rw [Tree.check, Tree.occurrences, checkAlong]
  | .binary left _ right _ => by
    rw [Tree.check, Tree.occurrences, checkAlong_append, check_eq_checkAlong left,
      check_eq_checkAlong right]
  | .signed _ operand _ => by rw [Tree.check, Tree.occurrences, check_eq_checkAlong operand]
  | .variable name line => by
    rw [Tree.check, Tree.occurrences, checkAlong_singleton, Occurrence.check]
  | .assignment name value line => by
    rw [Tree.check, Tree.occurrences, checkAlong_append, check_eq_checkAlong value,
      checkAlong_singleton, Occurrence.check]
  | .declaration name typeName typeLine none line => by
    rw [Tree.check, Tree.occurrences, checkAlong_singleton, Occurrence.check]
  | .declaration name typeName typeLine (some init) line => by
    rw [Tree.check, Tree.occurrences, checkAlong, check_eq_checkAlong init, Occurrence.check,
      bind_assoc]
  | .procedure .. => by rw [Tree.check, Tree.occurrences, checkAlong]
  | .block children _ => by rw [Tree.check, Tree.occurrences, checkAll_eq_checkAlong children]
  | .empty => by rw [Tree.check, Tree.occurrences, checkAlong]

theorem checkAll_eq_checkAlong : ∀ trees : List Tree,
    checkAll trees = checkAlong (occurrencesAll trees)
  | [] => by rw [checkAll, occurrencesAll, checkAlong]
  | tree :: others => by
    rw [checkAll, occurrencesAll, checkAlong_append, check_eq_checkAlong tree,
      checkAll_eq_checkAlong others]

end

/-- The table has kept what it held at the start and got a variable for each declaration. -/
structure Records (start : SymbolTable) (past : List Occurrence) (now : SymbolTable) : Prop where
  kept : ∀ {name}, start.lookup? name ≠ none → now.lookup? name = start.lookup? name
  declared : ∀ {name}, start.lookup? name = none → name ∈ declaredNames past →
    ∃ typeName typeLine line type, .declared name typeName typeLine line ∈ past ∧
      start.lookup? typeName = some (.basicType type) ∧
      now.lookup? name = some (.variable name (.basicType type))
  new : ∀ {name}, start.lookup? name = none → name ∉ declaredNames past → now.lookup? name = none

theorem SymbolTable.knowsType_iff {table : SymbolTable} {name : String} :
    table.knowsType name ↔ ∃ type, table.lookup? name = some (.basicType type) := by
  unfold knowsType
  rcases table.lookup? name with _ | ⟨type⟩ | ⟨x, type⟩ <;> simp [Symbol.isType]

namespace Records
variable {start now : SymbolTable} {past : List Occurrence}

theorem refl (start : SymbolTable) : Records start [] start where
  kept _ := rfl
  declared _ h := by simp at h
  new h _ := h

theorem lookup?_eq_none_iff (h : Records start past now) {name : String} :
    now.lookup? name = none ↔ start.lookup? name = none ∧ name ∉ declaredNames past := by
  constructor
  · intro hnow
    have hstart : start.lookup? name = none := by
      by_contra hne
      exact hne (h.kept hne ▸ hnow)
    refine ⟨hstart, fun hmem => ?_⟩
    obtain ⟨-, -, -, declaredType, -, -, hvariable⟩ := h.declared hstart hmem
    simp [hnow] at hvariable
  · rintro ⟨hstart, hmem⟩
    exact h.new hstart hmem

theorem lookup?_eq_basicType_iff (h : Records start past now) {name type : String} :
    now.lookup? name = some (.basicType type) ↔ start.lookup? name = some (.basicType type) := by
  by_cases hstart : start.lookup? name = none
  · simp only [hstart, reduceCtorEq, iff_false]
    intro hnow
    by_cases hmem : name ∈ declaredNames past
    · obtain ⟨-, -, -, declaredType, -, -, hvariable⟩ := h.declared hstart hmem
      simp [hvariable] at hnow
    · simp [h.new hstart hmem] at hnow
  · rw [h.kept hstart]

theorem used (h : Records start past now) (name : String) (line : Nat) :
    Records start (past ++ [.used name line]) now := by
  have hnames : declaredNames (past ++ [.used name line]) = declaredNames past := by simp
  refine ⟨h.kept, ?_, ?_⟩
  · intro other hstart hmem
    obtain ⟨typeName, typeLine, line', type, hpast, htype, hnow⟩ := h.declared hstart (hnames ▸ hmem)
    exact ⟨typeName, typeLine, line', type, List.mem_append_left _ hpast, htype, hnow⟩
  · intro other hstart hmem
    exact h.new hstart (hnames ▸ hmem)

theorem insert (h : Records start past now) {name typeName type : String} {typeLine line : Nat}
    (htype : start.lookup? typeName = some (.basicType type)) (hname : start.lookup? name = none) :
    Records start (past ++ [.declared name typeName typeLine line])
      (now.insert (.variable name (.basicType type))) := by
  have hnames : declaredNames (past ++ [.declared name typeName typeLine line]) =
      declaredNames past ++ [name] := by
    simp
  refine ⟨?_, ?_, ?_⟩
  · intro other hstart
    have hne : other ≠ name := fun heq => hstart (heq ▸ hname)
    rw [SymbolTable.lookup?_insert, if_neg (by simpa [Symbol.name] using hne), h.kept hstart]
  · intro other hstart hmem
    rw [SymbolTable.lookup?_insert]
    by_cases heq : other = name
    · subst heq
      exact ⟨typeName, typeLine, line, type, by simp, htype, by simp [Symbol.name]⟩
    · have hpast : other ∈ declaredNames past := by simpa [hnames, heq] using hmem
      obtain ⟨typeName', typeLine', line', type', hpast, htype', hnow⟩ := h.declared hstart hpast
      refine ⟨typeName', typeLine', line', type', List.mem_append_left _ hpast, htype', ?_⟩
      rw [if_neg (by simpa [Symbol.name] using heq), hnow]
  · intro other hstart hmem
    simp only [hnames, List.mem_append, List.mem_singleton, not_or] at hmem
    rw [SymbolTable.lookup?_insert, if_neg (by simpa [Symbol.name] using hmem.2)]
    exact h.new hstart hmem.1

end Records

theorem Checker.run_use (name : String) (line : Nat) (now : SymbolTable) :
    (use name line).run now =
      if now.lookup? name = none then .error (.undeclared name line) now else .ok () now := by
  simp only [use, EStateM.run_bind, EStateM.run_get]
  cases now.lookup? name <;> simp

theorem Checker.run_declare (name : String) (type : Symbol) (line : Nat) (now : SymbolTable) :
    (declare name type line).run now =
      if now.lookup? name = none then .ok () (now.insert (.variable name type))
      else .error (.duplicate name line) now := by
  simp only [declare, EStateM.run_bind, EStateM.run_get]
  cases now.lookup? name <;> simp

theorem Checker.run_resolveType {name type : String} {now : SymbolTable}
    (h : now.lookup? name = some (.basicType type)) (line : Nat) :
    (resolveType name line).run now = .ok (.basicType type) now := by
  simp [resolveType, h]

theorem Checker.run_resolveType_of_not_knowsType {name : String} {now : SymbolTable}
    (h : ¬ now.knowsType name) (line : Nat) :
    (resolveType name line).run now = .error (.unknownType name line) now := by
  rw [SymbolTable.knowsType_iff, not_exists] at h
  simp only [resolveType, EStateM.run_bind, EStateM.run_get]
  rfl

namespace Records
variable {start now : SymbolTable} {past : List Occurrence}

theorem knowsType_eq (h : Records start past now) (name : String) :
    now.knowsType name ↔ start.knowsType name := by
  simp only [SymbolTable.knowsType_iff, h.lookup?_eq_basicType_iff]

theorem check_of_proper (h : Records start past now) {o : Occurrence} (ho : o.Proper start past) :
    ∃ now', o.check.run now = .ok () now' ∧ Records start (past ++ [o]) now' := by
  cases o with
  | used name line =>
    have hknown : now.lookup? name ≠ none := by
      rw [ne_eq, h.lookup?_eq_none_iff]
      rcases ho with ho | ho <;> simp [ho]
    exact ⟨now, by rw [Occurrence.check, run_use, if_neg hknown], h.used name line⟩
  | declared name typeName typeLine line =>
    obtain ⟨htype, hstart, hpast⟩ := ho
    obtain ⟨type, htype⟩ := SymbolTable.knowsType_iff.mp htype
    have hnow := run_resolveType (h.lookup?_eq_basicType_iff.mpr htype) typeLine
    have hnew := h.lookup?_eq_none_iff.mpr ⟨hstart, hpast⟩
    refine ⟨_, ?_, h.insert htype hstart⟩
    simp only [Occurrence.check, EStateM.run_bind, hnow, run_declare, if_pos hnew]

theorem check_of_not_proper (h : Records start past now) {o : Occurrence}
    (ho : ¬ o.Proper start past) : o.check.run now = .error (o.fault start) now := by
  cases o with
  | used name line =>
    have hnew : now.lookup? name = none := by
      rw [h.lookup?_eq_none_iff]
      simpa [Occurrence.Proper, not_or] using ho
    rw [Occurrence.check, run_use, if_pos hnew, Occurrence.fault]
  | declared name typeName typeLine line =>
    by_cases htype : start.knowsType typeName
    · have hknown : now.lookup? name ≠ none := by
        rw [ne_eq, h.lookup?_eq_none_iff]
        intro hnew
        exact ho ⟨htype, hnew⟩
      obtain ⟨type, hstart⟩ := SymbolTable.knowsType_iff.mp htype
      have hnow := run_resolveType (h.lookup?_eq_basicType_iff.mpr hstart) typeLine
      simp only [Occurrence.check, EStateM.run_bind, hnow, run_declare, if_neg hknown,
        Occurrence.fault, if_pos htype]
    · have hnow := run_resolveType_of_not_knowsType (mt (h.knowsType_eq typeName).mp htype) typeLine
      simp only [Occurrence.check, EStateM.run_bind, hnow, Occurrence.fault, if_neg htype]

end Records

theorem checkAlong_of_proper {start : SymbolTable} {occurrences : List Occurrence}
    (h : AtEach (Occurrence.Proper start) occurrences) :
    ∃ now, (checkAlong occurrences).run start = .ok () now ∧ Records start occurrences now := by
  induction occurrences using List.reverseRecOn with
  | nil => exact ⟨start, by simp [checkAlong], .refl start⟩
  | append_singleton past o ih =>
    obtain ⟨hpast, ho⟩ := atEach_concat.mp h
    obtain ⟨now, hrun, hnow⟩ := ih hpast
    obtain ⟨now', hcheck, hnow'⟩ := hnow.check_of_proper ho
    refine ⟨now', ?_, hnow'⟩
    simp only [checkAlong_append, checkAlong_singleton, EStateM.run_bind, hrun, hcheck]

/-- Nothing behind the first improper occurrence matters. -/
theorem checkAlong_of_not_proper {start : SymbolTable} {before : List Occurrence} {o : Occurrence}
    (h : AtEach (Occurrence.Proper start) before) (ho : ¬ o.Proper start before)
    (after : List Occurrence) :
    ∃ now, (checkAlong (before ++ o :: after)).run start = .error (o.fault start) now ∧
      Records start before now := by
  obtain ⟨now, hrun, hnow⟩ := checkAlong_of_proper h
  refine ⟨now, ?_, hnow⟩
  simp only [checkAlong_append, checkAlong, EStateM.run_bind, hrun, hnow.check_of_not_proper ho]

theorem proper_of_checkAlong {start now : SymbolTable} {occurrences : List Occurrence}
    (h : (checkAlong occurrences).run start = .ok () now) :
    AtEach (Occurrence.Proper start) occurrences ∧ Records start occurrences now := by
  rcases atEach_or_exists_first (P := Occurrence.Proper start) occurrences with
    hproper | ⟨before, o, after, rfl, hbefore, ho⟩
  · obtain ⟨now', hrun, hnow⟩ := checkAlong_of_proper hproper
    rw [h] at hrun
    cases hrun
    exact ⟨hproper, hnow⟩
  · obtain ⟨now', hrun, -⟩ := checkAlong_of_not_proper hbefore ho after
    rw [h] at hrun
    cases hrun

theorem exists_first_of_checkAlong {start now : SymbolTable} {occurrences : List Occurrence}
    {f : DeclarationFault} (h : (checkAlong occurrences).run start = .error f now) :
    ∃ before o after, occurrences = before ++ o :: after ∧
      AtEach (Occurrence.Proper start) before ∧ ¬ o.Proper start before ∧ f = o.fault start ∧
      Records start before now := by
  rcases atEach_or_exists_first (P := Occurrence.Proper start) occurrences with
    hproper | ⟨before, o, after, rfl, hbefore, ho⟩
  · obtain ⟨now', hrun, -⟩ := checkAlong_of_proper hproper
    rw [h] at hrun
    cases hrun
  · obtain ⟨now', hrun, hnow⟩ := checkAlong_of_not_proper hbefore ho after
    rw [h] at hrun
    cases hrun
    exact ⟨before, o, after, rfl, hbefore, ho, rfl, hnow⟩

/-- A tree passes the check exactly if all names in it are declared once and before their use, and
otherwise the fault is that of the first name for which this fails. -/
theorem check_decides_declarations (tree : Tree) (table : SymbolTable) :
    ((∃ now, tree.check.run table = .ok () now) ↔
      AtEach (Occurrence.Proper table) tree.occurrences) ∧
    ∀ f, (∃ now, tree.check.run table = .error f now) ↔
      ∃ before o after, tree.occurrences = before ++ o :: after ∧
        AtEach (Occurrence.Proper table) before ∧ ¬ o.Proper table before ∧ f = o.fault table := by
  rw [check_eq_checkAlong]
  refine ⟨⟨?_, ?_⟩, fun f => ⟨?_, ?_⟩⟩
  · rintro ⟨now, hrun⟩
    exact (proper_of_checkAlong hrun).1
  · intro hproper
    obtain ⟨now, hrun, -⟩ := checkAlong_of_proper hproper
    exact ⟨now, hrun⟩
  · rintro ⟨now, hrun⟩
    obtain ⟨before, o, after, hsplit, hbefore, ho, hf, -⟩ := exists_first_of_checkAlong hrun
    exact ⟨before, o, after, hsplit, hbefore, ho, hf⟩
  · rintro ⟨before, o, after, hsplit, hbefore, ho, rfl⟩
    obtain ⟨now, hrun, -⟩ := checkAlong_of_not_proper hbefore ho after
    exact ⟨now, by rw [hsplit, hrun]⟩

end Primer
