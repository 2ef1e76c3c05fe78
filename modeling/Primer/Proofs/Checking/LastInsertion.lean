import Primer.Proofs.Checking.Names
import Primer.Proofs.Insertions

/-! # The last symbol of each name

Any symbols can be inserted into a symbol table, also under the names of the basic types. It keeps
the last one of each name and lists them in the order of the names. So nothing but the last symbols
can be seen in a table: how often and in which order the others were inserted makes no difference.
-/
namespace Primer

/-- The row of the symbol in a printed table. -/
def Symbol.row : Symbol → String
  | .basicType name =>
    " * " ++ name ++ " = " ++ "BuiltinTypeSymbol(name='" ++ name ++ "')" ++ "\n"
  | .variable name type =>
    " * " ++ name ++ " = " ++ "VarSymbol(name='" ++ name ++ "', type='" ++ type.name ++ "')" ++ "\n"

theorem Symbol.row_eq (s : Symbol) : " * " ++ s.name ++ " = " ++ s.text ++ "\n" = s.row := by
  cases s <;>
  · dsimp only [name, text, row]
    simp only [← String.append_assoc]

namespace SymbolTable

/-- A new table into which the symbols are inserted from left to right. -/
def ofInsertions (symbols : List Symbol) : SymbolTable := symbols.foldl insert initial

/-- The table is a map from names to the last symbols inserted under them, listed by name. -/
structure KeepsLast (table : SymbolTable) (symbols : List Symbol) : Prop where
  last : ∀ {name s}, LastNamed Symbol.name symbols name s → table.lookup? name = some s
  seeded : ∀ type : BasicType, type.name ∉ symbols.map Symbol.name →
    table.lookup? type.name = some (.basicType type.name)
  missing : ∀ {name}, name ∉ symbols.map Symbol.name → (∀ type : BasicType, name ≠ type.name) →
    table.lookup? name = none
  mem_toList : ∀ s, s ∈ table.toList ↔ ∃ name, table.lookup? name = some s
  increasing : table.toList.Pairwise fun s t => s.name < t.name
  text_eq : table.text = "SymbolTable contents\n--------------------\n" ++
    String.join (table.toList.map Symbol.row) ++ "--------------------"
  size_eq : table.size =
    (BasicType.int.name :: BasicType.float.name :: symbols.map Symbol.name).toFinset.card
  two_le_size : 2 ≤ table.size

variable {symbols : List Symbol} {name : String} {s : Symbol}

theorem byName_ofInsertions (symbols : List Symbol) :
    (ofInsertions symbols).byName = initial.byName.insertAll Symbol.name id symbols :=
  (List.foldl_hom byName fun _ _ => rfl).symm

theorem lookup?_initial_eq_some_iff :
    initial.lookup? name = some s ↔
      ∃ type : BasicType, name = type.name ∧ s = .basicType type.name := by
  constructor
  · intro h
    rcases lookup?_initial name with hnone | ⟨type, rfl, hsome⟩
    · rw [hnone] at h
      cases h
    · rw [hsome] at h
      cases h
      exact ⟨type, rfl, rfl⟩
  · rintro ⟨type, rfl, rfl⟩
    cases type <;> rfl

theorem lookup?_ofInsertions_eq_some_iff :
    (ofInsertions symbols).lookup? name = some s ↔
      LastNamed Symbol.name symbols name s ∨
        (name ∉ symbols.map Symbol.name ∧ initial.lookup? name = some s) := by
  rw [lookup?, byName_ofInsertions, NameMap.get?_insertAll_eq_some_iff]
  simp [lookup?]

theorem lookup?_ofInsertions_ne_none_iff :
    (ofInsertions symbols).lookup? name ≠ none ↔
      name ∈ symbols.map Symbol.name ∨ ∃ type : BasicType, name = type.name := by
  rw [lookup?, byName_ofInsertions, NameMap.get?_insertAll_ne_none_iff]
  change _ ∨ initial.lookup? name ≠ none ↔ _
  simp [Option.ne_none_iff_exists', lookup?_initial_eq_some_iff]

theorem name_of_lookup? (h : (ofInsertions symbols).lookup? name = some s) : s.name = name := by
  rcases lookup?_ofInsertions_eq_some_iff.mp h with hlast | ⟨-, hinitial⟩
  · exact hlast.key_eq
  · obtain ⟨type, rfl, rfl⟩ := lookup?_initial_eq_some_iff.mp hinitial
    rfl

theorem name_of_mem_entries {entry : String × Symbol}
    (h : entry ∈ (ofInsertions symbols).byName.entries) : entry.2.name = entry.1 :=
  name_of_lookup? (NameMap.get?_eq_some_iff.mpr h)

theorem size_ofInsertions (symbols : List Symbol) : (ofInsertions symbols).size =
    (BasicType.int.name :: BasicType.float.name :: symbols.map Symbol.name).toFinset.card := by
  refine NameMap.size_eq_card fun name => ?_
  have htype : (∃ type : BasicType, name = type.name) ↔
      name = BasicType.int.name ∨ name = BasicType.float.name := by
    constructor
    · rintro ⟨type, rfl⟩
      cases type <;> simp
    · rintro (rfl | rfl)
      · exact ⟨.int, rfl⟩
      · exact ⟨.float, rfl⟩
  rw [← lookup?, lookup?_ofInsertions_ne_none_iff, htype, List.mem_toFinset, List.mem_cons,
    List.mem_cons, ← or_assoc, or_comm]

theorem mem_toList_iff {table : SymbolTable} :
    s ∈ table.toList ↔ ∃ name, table.lookup? name = some s := by
  simp only [toList, List.mem_map, lookup?, NameMap.get?_eq_some_iff]
  constructor
  · rintro ⟨⟨name, _⟩, hmem, rfl⟩
    exact ⟨name, hmem⟩
  · rintro ⟨name, hmem⟩
    exact ⟨_, hmem, rfl⟩

theorem text_eq_of_names {table : SymbolTable}
    (h : ∀ entry ∈ table.byName.entries, entry.2.name = entry.1) :
    table.text = "SymbolTable contents\n--------------------\n" ++
      String.join (table.toList.map Symbol.row) ++ "--------------------" := by
  have hrows : table.byName.entries.map
        (fun entry => " * " ++ entry.1 ++ " = " ++ entry.2.text ++ "\n") =
      table.toList.map Symbol.row := by
    rw [toList, List.map_map]
    refine List.map_congr_left fun entry hmem => ?_
    rw [Function.comp_apply, ← Symbol.row_eq, h entry hmem]
  rw [← hrows]
  rfl

theorem ofInsertions_congr {others : List Symbol}
    (h : ∀ name s, LastNamed Symbol.name symbols name s ↔ LastNamed Symbol.name others name s) :
    ofInsertions symbols = ofInsertions others := by
  have hnames (name : String) : name ∈ symbols.map Symbol.name ↔ name ∈ others.map Symbol.name := by
    rw [← LastNamed.exists_iff, ← LastNamed.exists_iff]
    exact exists_congr (h name)
  have hlookup (name : String) :
      (ofInsertions symbols).lookup? name = (ofInsertions others).lookup? name := by
    ext s
    rw [lookup?_ofInsertions_eq_some_iff, lookup?_ofInsertions_eq_some_iff, h, hnames]
  exact congrArg SymbolTable.mk (NameMap.ext_get? hlookup)

theorem keepsLast_ofInsertions (symbols : List Symbol) :
    (ofInsertions symbols).KeepsLast symbols where
  last hlast := lookup?_ofInsertions_eq_some_iff.mpr (.inl hlast)
  seeded type hnot := lookup?_ofInsertions_eq_some_iff.mpr
    (.inr ⟨hnot, lookup?_initial_eq_some_iff.mpr ⟨type, rfl, rfl⟩⟩)
  missing hnot hname := by
    by_contra hfound
    rcases lookup?_ofInsertions_ne_none_iff.mp hfound with hmem | ⟨type, htype⟩
    · exact hnot hmem
    · exact hname type htype
  mem_toList _ := mem_toList_iff
  increasing := by
    refine List.pairwise_map.mpr ((ofInsertions symbols).byName.sorted.imp_of_mem ?_)
    intro entry entry' hmem hmem' hlt
    rwa [name_of_mem_entries hmem, name_of_mem_entries hmem']
  text_eq := text_eq_of_names fun _ => name_of_mem_entries
  size_eq := size_ofInsertions symbols
  two_le_size := by
    rw [size_ofInsertions]
    have hsub : ({BasicType.int.name, BasicType.float.name} : Finset String) ⊆
        (BasicType.int.name :: BasicType.float.name :: symbols.map Symbol.name).toFinset := by
      intro name hname
      rw [Finset.mem_insert, Finset.mem_singleton] at hname
      rw [List.mem_toFinset, List.mem_cons, List.mem_cons]
      exact hname.imp_right .inl
    have hcard : ({BasicType.int.name, BasicType.float.name} : Finset String).card = 2 := by decide
    exact hcard ▸ Finset.card_le_card hsub

end SymbolTable

/-- After any insertions a symbol table finds and lists the last symbol of each name, with the basic
types where their names were not inserted. Other insertions that end with the same symbols lead to
the same table. -/
theorem ofInsertions_determined_by_last (symbols others : List Symbol) :
    (SymbolTable.ofInsertions symbols).KeepsLast symbols ∧
    ((∀ name s, LastNamed Symbol.name symbols name s ↔ LastNamed Symbol.name others name s) →
      SymbolTable.ofInsertions symbols = SymbolTable.ofInsertions others ∧
      (SymbolTable.ofInsertions symbols).text = (SymbolTable.ofInsertions others).text) := by
  refine ⟨SymbolTable.keepsLast_ofInsertions symbols, fun hlast => ?_⟩
  have htable := SymbolTable.ofInsertions_congr hlast
  exact ⟨htable, congrArg SymbolTable.text htable⟩

/-- A variable takes the name of a basic type, and another one replaces a type. The first symbol and
the order of the others leave no trace. -/
theorem ofInsertions_determined_by_last_replaced :
    let int : Symbol := .variable "Int" (.basicType "Float")
    let x : Symbol := .variable "x" int
    (∀ name s, LastNamed Symbol.name [.basicType "x", int, x] name s ↔
      LastNamed Symbol.name [x, int] name s) ∧
    SymbolTable.ofInsertions [.basicType "x", int, x] = SymbolTable.ofInsertions [x, int] ∧
    (SymbolTable.ofInsertions [.basicType "x", int, x]).text =
      "SymbolTable contents\n--------------------\n" ++
      " * Float = BuiltinTypeSymbol(name='Float')\n" ++
      " * Int = VarSymbol(name='Int', type='Float')\n" ++
      " * x = VarSymbol(name='x', type='Int')\n" ++ "--------------------" := by
  intro int x
  have hlast : ∀ name s, LastNamed Symbol.name (([] ++ [.basicType "x"] ++ [int]) ++ [x]) name s ↔
      LastNamed Symbol.name (([] ++ [x]) ++ [int]) name s := by
    intro name s
    simp only [LastNamed.concat_iff, LastNamed.not_nil, x, int, Symbol.name]
    by_cases hx : "x" = name
    · have hint : ¬ "Int" = name := fun h => absurd (h.trans hx.symm) (by decide)
      simp only [if_pos hx, if_neg hint]
    · simp only [if_neg hx]
  obtain ⟨hkeeps, hsame⟩ := ofInsertions_determined_by_last [.basicType "x", int, x] [x, int]
  refine ⟨hlast, (hsame hlast).1, ?_⟩
  rw [hkeeps.text_eq]
  decide +kernel

end Primer
