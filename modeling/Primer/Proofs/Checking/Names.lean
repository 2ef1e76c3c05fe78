import Primer.Proofs.Checking.Occurrences
import Primer.Proofs.Evaluation.Instructions

/-! # The names of a checked tree

The check and the evaluation visit a tree in different orders, but they meet the same names. So each
name that the evaluation reads or writes is in the table of a tree that has passed the check.
-/
namespace Primer

def Occurrence.name : Occurrence → String
  | .declared name .. => name
  | .used name _ => name

/-- The names that the tree mentions outside of the bodies of procedures. -/
def Tree.names (tree : Tree) : List String := tree.occurrences.map Occurrence.name

def namesAll (trees : List Tree) : List String := (occurrencesAll trees).map Occurrence.name

/-- The variable that the instruction reads or writes. -/
def Instruction.name? : Instruction → Option String
  | .load name _ => some name
  | .store name => some name
  | _ => none

theorem name?_of_mem_demanded {tree : Tree} {i : Instruction} (h : i ∈ tree.demanded) :
    i.name? = none := by
  rw [eq_refuse_of_mem_demanded h]
  rfl

theorem name?_of_mem_ignored {tree : Tree} {i : Instruction} (h : i ∈ tree.ignored) :
    i.name? = none := by
  rw [eq_drop_of_mem_ignored h]
  rfl

theorem mem_code_of_mem_demanding {tree : Tree} {i : Instruction} {name : String}
    (h : i ∈ tree.code ++ tree.demanded) (hi : i.name? = some name) : i ∈ tree.code := by
  rcases List.mem_append.mp h with h | h
  · exact h
  · simp [name?_of_mem_demanded h] at hi

mutual

theorem mem_names_of_mem_code : ∀ (tree : Tree) {i : Instruction} {name : String},
    i ∈ tree.code → i.name? = some name → name ∈ tree.names
  | .literal .., i, name, h, hi => by
    rw [List.mem_singleton.mp h] at hi
    cases hi
  | .binary left op right _, i, name, h, hi => by
    rw [Tree.names, Tree.occurrences, List.map_append, List.mem_append]
    rw [Tree.code, List.append_assoc (left.code ++ left.demanded), List.mem_append, List.mem_append,
      List.mem_singleton] at h
    rcases h with (h | h) | rfl
    · exact .inl (mem_names_of_mem_code left (mem_code_of_mem_demanding h hi) hi)
    · exact .inr (mem_names_of_mem_code right (mem_code_of_mem_demanding h hi) hi)
    · cases hi
  | .signed _ operand _, i, name, h, hi => by
    rw [Tree.code, List.mem_append, List.mem_singleton] at h
    rcases h with h | rfl
    · exact mem_names_of_mem_code operand (mem_code_of_mem_demanding h hi) hi
    · cases hi
  | .variable x _, i, name, h, hi => by
    rw [List.mem_singleton.mp h] at hi
    cases hi
    simp [Tree.names, Tree.occurrences, Occurrence.name]
  | .assignment x value _, i, name, h, hi => by
    rw [Tree.names, Tree.occurrences, List.map_append, List.mem_append]
    rw [Tree.code, List.mem_append, List.mem_singleton] at h
    rcases h with h | rfl
    · exact .inl (mem_names_of_mem_code value (mem_code_of_mem_demanding h hi) hi)
    · cases hi
      simp [Occurrence.name]
  | .declaration _ _ _ none _, i, name, h, hi => by
    simp [Tree.code] at h
  | .declaration x _ _ (some init) _, i, name, h, hi => by
    rw [Tree.names, Tree.occurrences, List.map_cons, List.mem_cons]
    rw [Tree.code, List.mem_append, List.mem_singleton] at h
    rcases h with h | rfl
    · exact .inr (mem_names_of_mem_code init (mem_code_of_mem_demanding h hi) hi)
    · cases hi
      exact .inl rfl
  | .procedure .., i, name, h, hi => by simp [Tree.code] at h
  | .block children _, i, name, h, hi => mem_namesAll_of_mem_codeAll children h hi
  | .empty, i, name, h, hi => by simp [Tree.code] at h

theorem mem_namesAll_of_mem_codeAll : ∀ (trees : List Tree) {i : Instruction} {name : String},
    i ∈ codeAll trees → i.name? = some name → name ∈ namesAll trees
  | [], i, name, h, hi => by simp [codeAll] at h
  | tree :: others, i, name, h, hi => by
    rw [namesAll, occurrencesAll, List.map_append, List.mem_append]
    rw [codeAll, List.mem_append, List.mem_append] at h
    rcases h with (h | h) | h
    · exact .inl (mem_names_of_mem_code tree h hi)
    · simp [name?_of_mem_ignored h] at hi
    · exact .inr (mem_namesAll_of_mem_codeAll others h hi)

end

theorem mem_declaredNames {name typeName : String} {typeLine line : Nat} {l : List Occurrence}
    (h : .declared name typeName typeLine line ∈ l) : name ∈ declaredNames l :=
  List.mem_filterMap.mpr ⟨_, h, rfl⟩

theorem lookup?_ne_none_of_check {tree : Tree} {start now : SymbolTable}
    (h : tree.check.run start = .ok () now) {name : String} (hname : name ∈ tree.names) :
    now.lookup? name ≠ none := by
  rw [check_eq_checkAlong] at h
  obtain ⟨hproper, hnow⟩ := proper_of_checkAlong h
  obtain ⟨o, ho, rfl⟩ := List.mem_map.mp hname
  obtain ⟨before, after, hsplit⟩ := List.append_of_mem ho
  rw [ne_eq, hnow.lookup?_eq_none_iff]
  rintro ⟨hstart, hdeclared⟩
  cases o with
  | declared x typeName typeLine line => exact hdeclared (mem_declaredNames ho)
  | used x line =>
    rcases hproper before _ after hsplit with hknown | hbefore
    · exact hknown hstart
    · apply hdeclared
      rw [hsplit, declaredNames_append]
      exact List.mem_append_left _ hbefore

theorem check_keeps (tree : Tree) (start : SymbolTable) (name : String)
    (h : start.lookup? name ≠ none) :
    (finalState (tree.check.run start)).lookup? name = start.lookup? name := by
  rw [check_eq_checkAlong]
  cases hrun : (checkAlong tree.occurrences).run start with
  | ok _ now =>
    obtain ⟨-, hnow⟩ := proper_of_checkAlong hrun
    exact hnow.kept h
  | error f now =>
    obtain ⟨before, o, after, -, -, -, -, hnow⟩ := exists_first_of_checkAlong hrun
    exact hnow.kept h

theorem lookup?_initial (name : String) :
    SymbolTable.initial.lookup? name = none ∨
      ∃ type : BasicType, name = type.name ∧
        SymbolTable.initial.lookup? name = some (.basicType name) := by
  have hlookup : SymbolTable.initial.lookup? name =
      if name = BasicType.float.name then some (.basicType BasicType.float.name)
      else if name = BasicType.int.name then some (.basicType BasicType.int.name) else none := by
    rw [SymbolTable.initial, SymbolTable.lookup?_insert, SymbolTable.lookup?_insert]
    rfl
  rw [hlookup]
  by_cases hfloat : name = BasicType.float.name
  · exact .inr ⟨.float, hfloat, by rw [if_pos hfloat, hfloat]⟩
  · rw [if_neg hfloat]
    by_cases hint : name = BasicType.int.name
    · exact .inr ⟨.int, hint, by rw [if_pos hint, hint]⟩
    · exact .inl (if_neg hint)

/-- The name of a variable, or of a basic type where a word is not recognised as reserved. -/
inductive SymbolTable.Holds (table : SymbolTable) (name : String) : Prop
  | variable (type : BasicType) (hname : ∀ other : BasicType, name ≠ other.name)
      (h : table.lookup? name = some (.variable name (.basicType type.name)))
  | type (type : BasicType) (hname : name = type.name)
      (h : table.lookup? name = some (.basicType name))

theorem holds_of_check {tree : Tree} {table : SymbolTable}
    (h : tree.check.run .initial = .ok () table) {name : String} (hname : name ∈ tree.names) :
    table.Holds name := by
  have hbound := lookup?_ne_none_of_check h hname
  rw [check_eq_checkAlong] at h
  obtain ⟨-, hnow⟩ := proper_of_checkAlong h
  rcases lookup?_initial name with hnone | ⟨type, htype, hinitial⟩
  · have hdeclared : name ∈ declaredNames tree.occurrences := by
      by_contra hnot
      exact hbound (hnow.new hnone hnot)
    have hname : ∀ other : BasicType, name ≠ other.name := by
      rintro other rfl
      cases other <;> cases hnone
    obtain ⟨typeName, -, -, type, -, hstart, hvariable⟩ := hnow.declared hnone hdeclared
    rcases lookup?_initial typeName with hnone | ⟨basic, rfl, hbasic⟩
    · simp [hnone] at hstart
    · rw [hbasic] at hstart
      cases hstart
      exact .variable basic hname hvariable
  · refine .type type htype ?_
    rw [hnow.kept (by simp [hinitial]), hinitial]

end Primer
