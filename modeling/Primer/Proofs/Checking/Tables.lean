import Primer.Proofs.Checking.Names

/-! # The symbol table over many checks

A table lets a new symbol replace an old one. That it never comes to this is up to the checks: each
of them adds variables with new names only, as far as it gets. So after any checks of any trees, the
table holds the basic types and, besides them, variables whose types are in the table.
-/
namespace Primer

/-- The table of a new checker after it has checked some trees one after the other. -/
def tableAfter (trees : List Tree) : SymbolTable :=
  trees.foldl (fun table tree => finalState (tree.check.run table)) .initial

theorem tableAfter_concat (trees : List Tree) (tree : Tree) :
    tableAfter (trees ++ [tree]) = finalState (tree.check.run (tableAfter trees)) := by
  simp only [tableAfter, List.foldl_append, List.foldl_cons, List.foldl_nil]

/-- Each symbol stands under its own name. The basic types are there, and all other symbols are
variables of one of them. -/
structure SymbolTable.Regular (table : SymbolTable) : Prop where
  key : ∀ entry ∈ table.byName.entries, entry.2.name = entry.1
  types : ∀ type : BasicType, table.lookup? type.name = some (.basicType type.name)
  others : ∀ {name : String} {symbol : Symbol}, table.lookup? name = some symbol →
    (∀ type : BasicType, name ≠ type.name) →
    ∃ (type : BasicType) (typeSymbol : Symbol), table.lookup? type.name = some typeSymbol ∧
      symbol = .variable name typeSymbol

/-- The occurrences that a check of the tree passes, and how it ends: with the tree, or at the first
occurrence that is not proper. -/
inductive Passes (table : SymbolTable) (tree : Tree) :
    List Occurrence → EStateM.Result DeclarationFault SymbolTable Unit → Prop
  | whole {now : SymbolTable} (h : AtEach (Occurrence.Proper table) tree.occurrences) :
      Passes table tree tree.occurrences (.ok () now)
  | upTo {passed others : List Occurrence} {o : Occurrence} {now : SymbolTable}
      (hsplit : tree.occurrences = passed ++ o :: others)
      (h : AtEach (Occurrence.Proper table) passed) (ho : ¬ o.Proper table passed) :
      Passes table tree passed (.error (o.fault table) now)

/-- The later table has kept all symbols, and what it has got are the variables declared in the
occurrences that were passed, each with the type that its declaration names. -/
structure SymbolTable.Adds (table : SymbolTable) (passed : List Occurrence) (now : SymbolTable) :
    Prop where
  kept : ∀ {name : String} {symbol : Symbol}, table.lookup? name = some symbol →
    now.lookup? name = some symbol
  added : ∀ {name : String},
    (table.lookup? name = none ∧ now.lookup? name ≠ none) ↔ name ∈ declaredNames passed
  typed : ∀ {name typeName : String} {typeLine line : Nat},
    .declared name typeName typeLine line ∈ passed →
    now.lookup? name = some (.variable name (.basicType typeName))

theorem Passes.proper {table : SymbolTable} {tree : Tree} {passed : List Occurrence}
    {result : EStateM.Result DeclarationFault SymbolTable Unit}
    (h : Passes table tree passed result) : AtEach (Occurrence.Proper table) passed := by
  cases h with
  | whole h => exact h
  | upTo _ h => exact h

theorem exists_passes (table : SymbolTable) (tree : Tree) :
    ∃ passed, Passes table tree passed (tree.check.run table) ∧
      Records table passed (finalState (tree.check.run table)) := by
  rw [check_eq_checkAlong]
  rcases atEach_or_exists_first (P := Occurrence.Proper table) tree.occurrences with
    hproper | ⟨passed, o, others, hsplit, hproper, ho⟩
  · obtain ⟨now, hrun, hrecords⟩ := checkAlong_of_proper hproper
    rw [hrun]
    exact ⟨tree.occurrences, .whole hproper, hrecords⟩
  · obtain ⟨now, hrun, hrecords⟩ := checkAlong_of_not_proper hproper ho others
    rw [hsplit, hrun]
    exact ⟨passed, .upTo hsplit hproper ho, hrecords⟩

theorem exists_declared_of_mem {name : String} {l : List Occurrence} (h : name ∈ declaredNames l) :
    ∃ typeName typeLine line, .declared name typeName typeLine line ∈ l := by
  obtain ⟨o, ho, hname⟩ := List.mem_filterMap.mp h
  cases o with
  | declared x typeName typeLine line =>
    cases hname
    exact ⟨typeName, typeLine, line, ho⟩
  | used => cases hname

section Declarations
variable {table : SymbolTable} {passed : List Occurrence} {name typeName typeName' : String}
  {typeLine line typeLine' line' : Nat}

theorem proper_of_declared (h : AtEach (Occurrence.Proper table) passed)
    (hmem : .declared name typeName typeLine line ∈ passed) :
    table.knowsType typeName ∧ table.lookup? name = none := by
  obtain ⟨before, after, hsplit⟩ := List.append_of_mem hmem
  obtain ⟨htype, hname, -⟩ := h before _ after hsplit
  exact ⟨htype, hname⟩

theorem typeName_eq_of_declared (h : AtEach (Occurrence.Proper table) passed)
    (hmem : .declared name typeName typeLine line ∈ passed)
    (hmem' : .declared name typeName' typeLine' line' ∈ passed) : typeName = typeName' := by
  induction passed using List.reverseRecOn with
  | nil => cases hmem
  | append_singleton past o ih =>
    obtain ⟨hpast, ho⟩ := atEach_concat.mp h
    have hnew (hlast : ∃ type typeLine line, o = .declared name type typeLine line) :
        name ∉ declaredNames past := by
      obtain ⟨type, typeLine, line, rfl⟩ := hlast
      exact ho.2.2
    rcases List.mem_append.mp hmem with hold | hlast
    · rcases List.mem_append.mp hmem' with hold' | hlast'
      · exact ih hpast hold hold'
      · have hnot := hnew ⟨_, _, _, (List.mem_singleton.mp hlast').symm⟩
        exact absurd (mem_declaredNames hold) hnot
    · rcases List.mem_append.mp hmem' with hold' | hlast'
      · have hnot := hnew ⟨_, _, _, (List.mem_singleton.mp hlast).symm⟩
        exact absurd (mem_declaredNames hold') hnot
      · have heq := (List.mem_singleton.mp hlast).trans (List.mem_singleton.mp hlast').symm
        cases heq
        rfl

end Declarations

namespace SymbolTable
variable {table now : SymbolTable} {passed : List Occurrence}

theorem Regular.exists_type (h : table.Regular) {name type : String}
    (htype : table.lookup? name = some (.basicType type)) :
    ∃ basic : BasicType, name = basic.name ∧ type = basic.name := by
  by_cases hname : ∃ basic : BasicType, name = basic.name
  · obtain ⟨basic, rfl⟩ := hname
    rw [h.types basic] at htype
    cases htype
    exact ⟨basic, rfl, rfl⟩
  · obtain ⟨_, _, _, hvariable⟩ := h.others htype (not_exists.mp hname)
    cases hvariable

theorem Regular.adds (h : table.Regular) (hproper : AtEach (Occurrence.Proper table) passed)
    (hrecords : Records table passed now) : table.Adds passed now where
  kept hlookup := by
    rw [hrecords.kept (by simp [hlookup]), hlookup]
  added {name} := by
    constructor
    · rintro ⟨hstart, hnow⟩
      by_contra hnot
      exact hnow (hrecords.new hstart hnot)
    · intro hmem
      obtain ⟨typeName, typeLine, line, hdeclared⟩ := exists_declared_of_mem hmem
      obtain ⟨-, hstart⟩ := proper_of_declared hproper hdeclared
      refine ⟨hstart, fun hnow => ?_⟩
      exact (hrecords.lookup?_eq_none_iff.mp hnow).2 hmem
  typed {name typeName typeLine line} hdeclared := by
    obtain ⟨-, hstart⟩ := proper_of_declared hproper hdeclared
    obtain ⟨typeName', _, _, type, hdeclared', htype, hnow⟩ :=
      hrecords.declared hstart (mem_declaredNames hdeclared)
    obtain rfl := typeName_eq_of_declared hproper hdeclared hdeclared'
    obtain ⟨basic, rfl, rfl⟩ := h.exists_type htype
    exact hnow

theorem Adds.lookup?_cases (h : table.Adds passed now) {name : String} {symbol : Symbol}
    (hnow : now.lookup? name = some symbol) :
    table.lookup? name = some symbol ∨ ∃ typeName typeLine line,
      .declared name typeName typeLine line ∈ passed ∧
        symbol = .variable name (.basicType typeName) := by
  cases hstart : table.lookup? name with
  | some old =>
    have hkept := h.kept hstart
    rw [hnow] at hkept
    exact .inl hkept.symm
  | none =>
    have hmem := h.added.mp ⟨hstart, by simp [hnow]⟩
    obtain ⟨typeName, typeLine, line, hdeclared⟩ := exists_declared_of_mem hmem
    have htyped := h.typed hdeclared
    rw [hnow] at htyped
    exact .inr ⟨typeName, typeLine, line, hdeclared, Option.some.inj htyped⟩

/-- A check keeps the table regular, wherever it stops. -/
theorem Regular.of_adds (h : table.Regular) (hproper : AtEach (Occurrence.Proper table) passed)
    (hadds : table.Adds passed now) : now.Regular where
  key entry hentry := by
    have hnow : now.lookup? entry.1 = some entry.2 := NameMap.get?_eq_some_iff.mpr hentry
    rcases hadds.lookup?_cases hnow with hold | ⟨typeName, _, _, _, hnew⟩
    · exact h.key entry (NameMap.get?_eq_some_iff.mp hold)
    · rw [hnew, Symbol.name]
  types type := hadds.kept (h.types type)
  others {name symbol} hnow hname := by
    rcases hadds.lookup?_cases hnow with hold | ⟨typeName, typeLine, line, hdeclared, hnew⟩
    · obtain ⟨type, typeSymbol, htype, hsymbol⟩ := h.others hold hname
      exact ⟨type, typeSymbol, hadds.kept htype, hsymbol⟩
    · obtain ⟨htype, -⟩ := proper_of_declared hproper hdeclared
      obtain ⟨type, htype⟩ := knowsType_iff.mp htype
      obtain ⟨basic, rfl, -⟩ := h.exists_type htype
      exact ⟨basic, .basicType basic.name, hadds.kept (h.types basic), hnew⟩

theorem regular_initial : initial.Regular where
  key entry hentry := by
    have hlookup : initial.lookup? entry.1 = some entry.2 := NameMap.get?_eq_some_iff.mpr hentry
    rcases lookup?_initial entry.1 with hnone | ⟨type, -, hsome⟩
    · rw [hnone] at hlookup
      cases hlookup
    · rw [hsome] at hlookup
      rw [← Option.some.inj hlookup, Symbol.name]
  types type := by cases type <;> rfl
  others {name symbol} hlookup hname := by
    rcases lookup?_initial name with hnone | ⟨type, htype, -⟩
    · rw [hnone] at hlookup
      cases hlookup
    · exact absurd htype (hname type)

end SymbolTable

theorem regular_tableAfter (trees : List Tree) : (tableAfter trees).Regular := by
  induction trees using List.reverseRecOn with
  | nil => exact SymbolTable.regular_initial
  | append_singleton trees tree ih =>
    obtain ⟨passed, hpasses, hrecords⟩ := exists_passes (tableAfter trees) tree
    rw [tableAfter_concat]
    exact ih.of_adds hpasses.proper (ih.adds hpasses.proper hrecords)

/-- After any checks of any trees the table is regular. The next check changes and removes nothing in
it, and adds exactly the variables whose declarations it passes before it stops. -/
theorem table_regular_over_checks (trees : List Tree) (tree : Tree) :
    (tableAfter trees).Regular ∧
    ∃ passed, Passes (tableAfter trees) tree passed (tree.check.run (tableAfter trees)) ∧
      (tableAfter trees).Adds passed (tableAfter (trees ++ [tree])) := by
  have hregular := regular_tableAfter trees
  obtain ⟨passed, hpasses, hrecords⟩ := exists_passes (tableAfter trees) tree
  refine ⟨hregular, passed, hpasses, ?_⟩
  rw [tableAfter_concat]
  exact hregular.adds hpasses.proper hrecords

end Primer
