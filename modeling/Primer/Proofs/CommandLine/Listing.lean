import Primer.Proofs.CommandLine.TokenDump
import Primer.Proofs.Evaluation.Stores
import Primer.Proofs.ParsedTrees

/-! # The list of the variables

In pipe mode the variables are printed with their values, one on each line. These are the values
that the program has stored last. The order of the names makes the list unique: from whatever order
of the names one starts, sorting them leads to the same text.
-/
namespace Primer

def sortNames (names : List String) : List String := names.mergeSort fun a b => !decide (b < a)

theorem sortNames_increasing {names : List String} (h : names.Nodup) :
    (sortNames names).Pairwise (· < ·) := by
  have hnodup : (sortNames names).Nodup := (List.mergeSort_perm _ _).nodup_iff.mpr h
  have hsorted : (sortNames names).Pairwise fun a b => ¬ b < a := by
    refine (List.pairwise_mergeSort ?_ ?_ names).imp ?_
    · intro a b c hab hbc
      simp only [Bool.not_eq_true', decide_eq_false_iff_not, String.not_lt] at hab hbc ⊢
      exact String.le_trans hab hbc
    · intro a b
      simp only [Bool.or_eq_true, Bool.not_eq_true', decide_eq_false_iff_not, String.not_lt]
      exact String.le_total a b
    · intro a b hab
      simpa only [Bool.not_eq_true', decide_eq_false_iff_not] using hab
  refine hsorted.imp₂ ?_ hnodup
  intro a b hle hne
  exact Std.lt_of_le_of_ne (String.not_lt.mp hle) hne

namespace NameMap
variable {α : Type} {m : NameMap α}

/-- The entries of the names, in the order of the names. -/
def listed (m : NameMap α) (names : List String) : List (String × α) :=
  (sortNames names).filterMap fun name => (m.get? name).map fun value => (name, value)

theorem listed_eq_entries {names : List String} (hnodup : names.Nodup)
    (hnames : ∀ name, name ∈ names ↔ m.get? name ≠ none) : m.listed names = m.entries := by
  refine eq_of_mem_iff ?_ m.sorted ?_
  · refine List.Pairwise.filterMap _ ?_ (sortNames_increasing hnodup)
    intro a b hab x hx y hy
    obtain ⟨value, -, rfl⟩ := Option.map_eq_some_iff.mp hx
    obtain ⟨value', -, rfl⟩ := Option.map_eq_some_iff.mp hy
    exact hab
  · rintro ⟨name, value⟩
    rw [← get?_eq_some_iff, listed, List.mem_filterMap]
    simp only [sortNames, List.mem_mergeSort]
    constructor
    · rintro ⟨other, -, hother⟩
      obtain ⟨v, hv, heq⟩ := Option.map_eq_some_iff.mp hother
      cases heq
      exact hv
    · intro hvalue
      exact ⟨name, (hnames name).mpr (by simp [hvalue]), by rw [hvalue, Option.map_some]⟩

end NameMap

namespace CommandLine

def variableRow (row : String × Value) : String := row.1 ++ " = " ++ row.2.text

theorem outcomeText_pipe {outcome : Outcome} (h : outcome.result = none) :
    outcomeText true outcome =
      String.join ((outcome.environment.entries.map variableRow).map (· ++ "\n")) := by
  rw [outcomeText, h, List.map_map]
  exact String.empty_append

/-- The program is evaluated in this mode, with the outcome. -/
inductive Mode.Evaluates (program : String) (outcome : Outcome) : Mode → Prop
  | interpret (h : Program.interpret program = .ok outcome) : Evaluates program outcome .interpret
  | run (h : Program.run program = .ok outcome) : Evaluates program outcome .run

namespace Mode.Evaluates
variable {program : String} {outcome : Outcome} {o : Options}

theorem interpret_eq {mode : Mode} (h : mode.Evaluates program outcome) :
    Program.interpret program = .ok outcome := by
  cases h with
  | interpret h => exact h
  | run h =>
    obtain ⟨-, -, hinterpret⟩ := Program.exists_table_of_run h
    exact hinterpret

theorem modeOutput_eq (h : o.mode.Evaluates program outcome) :
    o.modeOutput program = .ok (outcomeText o.pipe outcome) := by
  unfold Options.modeOutput
  generalize o.mode = mode at h
  cases h with
  | interpret h =>
    rw [h]
    rfl
  | run h =>
    rw [h]
    rfl

theorem report_eq (h : o.mode.Evaluates program outcome) (htokens : o.showTokens = false)
    {readFile : String → Except FileFault String}
    (hprogram : (if o.fromFile then readFile o.contents else .ok o.contents) = .ok program) :
    o.report readFile = ⟨0, outcomeText o.pipe outcome, ""⟩ := by
  simp [Options.report, hprogram, Options.execute, h.modeOutput_eq, htokens]

end Mode.Evaluates

/-- The text has one line for each variable that the tree stores something in, in the order of their
names, with the value that was stored last. -/
structure ListsLast (tree : Tree) (stored rows : List (String × Value)) (output : String) :
    Prop where
  values : Stored .empty tree.stores stored
  names : ∀ name, name ∈ rows.map Prod.fst ↔ name ∈ tree.stores.map Prod.fst
  increasing : rows.Pairwise fun a b => a.1 < b.1
  last : ∀ row ∈ rows, LastNamed Prod.fst stored row.1 row
  lines : output.toList.splitOn '\n' = rows.map (fun row => (variableRow row).toList) ++ [[]]

theorem listsLast_entries {program : String} {tree : Tree} {stored : List (String × Value)}
    (hparse : Program.parse program = .ok tree) (h : Stored .empty tree.stores stored) :
    let rows := (NameMap.empty.insertAll Prod.fst Prod.snd stored).entries
    ListsLast tree stored rows (String.join ((rows.map variableRow).map (· ++ "\n"))) := by
  intro rows
  have hnames : ∀ name, name ∈ rows.map Prod.fst ↔ name ∈ tree.stores.map Prod.fst := by
    intro name
    rw [NameMap.mem_names_iff, NameMap.get?_insertAll_ne_none_iff, h.names_eq]
    simp
  refine ⟨h, hnames, NameMap.sorted _, ?_, ?_⟩
  · rintro ⟨name, value⟩ hrow
    rcases NameMap.get?_insertAll_eq_some_iff.mp (NameMap.get?_eq_some_iff.mpr hrow) with
      ⟨⟨name', value'⟩, hlast, rfl⟩ | ⟨-, hempty⟩
    · obtain rfl : name' = name := hlast.key_eq
      exact hlast
    · cases hempty
  · have honeLine : ∀ text ∈ rows.map variableRow, OneLine text := by
      intro text htext
      obtain ⟨⟨name, value⟩, hrow, rfl⟩ := List.mem_map.mp htext
      have hname := (hnames name).mp (List.mem_map.mpr ⟨_, hrow, rfl⟩)
      have hnamed := (Program.writtenIn_of_parse hparse).names name
        (Tree.mem_identifiers_of_mem_stores hname)
      have hequals : OneLine " = " := by decide
      have hword : OneLine name := hnamed.pattern.newline_not_mem
      exact (hword.append hequals).append value.oneLine_text
    rw [splitOn_join honeLine, List.map_map]
    rfl

/-- Pipe mode prints the variables that the program stores something in, with the values that it has
stored last. It is the same text in whatever order the variables are enumerated and then sorted. -/
theorem report_pipe_listsLast {o : Options} {readFile : String → Except FileFault String}
    {program : String} {outcome : Outcome} (hpipe : o.pipe = true) (htokens : o.showTokens = false)
    (hprogram : (if o.fromFile then readFile o.contents else .ok o.contents) = .ok program)
    (hmode : o.mode.Evaluates program outcome) :
    ∃ tree stored rows output, Program.parse program = .ok tree ∧
      o.report readFile = ⟨0, output, ""⟩ ∧ ListsLast tree stored rows output ∧
      ∀ names : List String, names.Nodup →
        (∀ name, name ∈ names ↔ outcome.environment.get? name ≠ none) →
        output = String.join
          ((outcome.environment.listed names).map fun row => variableRow row ++ "\n") := by
  have hinterpret := hmode.interpret_eq
  have hresult := Program.result_eq_none_of_interpret hinterpret
  have hreport := hmode.report_eq htokens hprogram
  rw [hpipe, outcomeText_pipe hresult] at hreport
  cases hparse : Program.parse program with
  | error f =>
    rw [Program.interpret_eq, hparse] at hinterpret
    cases hinterpret
  | ok tree =>
    rw [Program.interpret_of_parse hparse, Tree.outcome_eq_ok_iff] at hinterpret
    obtain ⟨stored, hstored, henv⟩ := (Program.isStatement_of_parse hparse).exists_stored hinterpret
    refine ⟨tree, stored, _, _, rfl, hreport, henv ▸ listsLast_entries hparse hstored, ?_⟩
    intro names hnodup hnames
    rw [NameMap.listed_eq_entries hnodup hnames, List.map_map]
    rfl

/-- One variable is stored twice, and another one is a quotient. A third one is declared without a
value and is stored in a procedure only. -/
theorem report_pipe_listsLast_overwritten :
    let o : Options := ⟨.interpret, false, false, true,
      "main \x7bvar y: Int = 1, z: Int; proc p z = 5; x = 2.0 / 8.0; y = -y\x7d"⟩
    o.report (fun _ => .error .notFound) = ⟨0, "x = 0.25\ny = -1\n", ""⟩ ∧
    ∃ tree stored rows, Program.parse o.contents = .ok tree ∧
      ListsLast tree stored rows "x = 0.25\ny = -1\n" := by
  intro o
  have hparse : Program.parse
      "main \x7bvar y: Int = 1, z: Int; proc p z = 5; x = 2.0 / 8.0; y = -y\x7d" = .ok (.block
      [.block [.declaration "y" "Int" 1 (some (.literal (.int 1) 1)) 1,
        .declaration "z" "Int" 1 none 1] 1,
      .procedure "p" (.assignment "z" (.literal (.int 5) 1) 1) 1,
      .assignment "x" (.binary (.literal (.float 2.0) 1) .divide (.literal (.float 8.0) 1) 1) 1,
      .assignment "y" (.signed .minus (.variable "y" 1) 1) 1] 1) := by
    refine Program.parse_eq_ok_iff.mpr ⟨⟨[⟨.keyword .main, 1⟩, ⟨.mark .openBrace, 1⟩,
      ⟨.keyword .var, 1⟩, ⟨.name "y", 1⟩, ⟨.mark .colon, 1⟩, ⟨.type .int, 1⟩, ⟨.mark .equals, 1⟩,
      ⟨.int 1, 1⟩, ⟨.mark .comma, 1⟩, ⟨.name "z", 1⟩, ⟨.mark .colon, 1⟩, ⟨.type .int, 1⟩,
      ⟨.mark .semicolon, 1⟩, ⟨.keyword .proc, 1⟩, ⟨.name "p", 1⟩, ⟨.name "z", 1⟩,
      ⟨.mark .equals, 1⟩, ⟨.int 5, 1⟩, ⟨.mark .semicolon, 1⟩, ⟨.name "x", 1⟩, ⟨.mark .equals, 1⟩,
      ⟨.float 2.0, 1⟩, ⟨.mark .slash, 1⟩, ⟨.float 8.0, 1⟩, ⟨.mark .semicolon, 1⟩, ⟨.name "y", 1⟩,
      ⟨.mark .equals, 1⟩, ⟨.mark .minus, 1⟩, ⟨.name "y", 1⟩, ⟨.mark .closeBrace, 1⟩], 1⟩,
      TokenStream.toTokenList_ofString (by rfl), ?_⟩
    exact .mk (.block (.more (.declarations (.more (.mk (.given (.one (.one .int))))
      (.one (.mk .missing)))) (.more (.procedure (.assignment (.one (.one .int))))
      (.more (.assignment (.one (.more (.one .float) .divide .float)))
        (.one (.assignment (.one (.one (.minus .name)))))))))
  let quotient : Value := BinaryOperator.divide.apply (.float 2.0) (.float 8.0)
  let outcome : Outcome := ⟨none,
    ((NameMap.empty.insert "y" (.int 1)).insert "x" quotient).insert "y" (.int (-1))⟩
  have hmode : o.mode.Evaluates o.contents outcome := by
    refine .interpret ?_
    rw [Program.interpret_of_parse hparse]
    rfl
  have htext : outcomeText true outcome = "x = 0.25\ny = -1\n" := by decide +kernel
  have hreport : o.report (fun _ => .error .notFound) = ⟨0, "x = 0.25\ny = -1\n", ""⟩ :=
    htext ▸ hmode.report_eq rfl rfl
  obtain ⟨tree, stored, rows, output, htree, houtput, hlists, -⟩ :=
    report_pipe_listsLast rfl rfl rfl hmode
  cases hreport.symm.trans houtput
  exact ⟨hreport, tree, stored, rows, htree, hlists⟩

end CommandLine

end Primer
