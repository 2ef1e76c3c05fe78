import Primer.Proofs.Checking.Names
import Primer.Proofs.Evaluation.Expressions
import Primer.Proofs.Evaluation.IntegerRange
import Primer.Proofs.Grammar.EarliestFault

/-! # Where faults point

A tree keeps the lines of the tokens that its faults are reported with: its names and its signs.
These tokens stand in the text in the same order as in the tree. So the line of every fault is that
of a token which accounts for it, or of the end of the text, and it lies within the text.
-/
namespace Primer

mutual

/-- The tokens that faults of the tree are reported with, in the order of the text. -/
def Tree.anchors : Tree → List Located
  | .literal .. => []
  | .binary left _ right _ => left.anchors ++ right.anchors
  | .signed sign operand line => ⟨.mark sign.mark, line⟩ :: operand.anchors
  | .variable name line => [⟨.name name, line⟩]
  | .assignment name value line => ⟨.name name, line⟩ :: value.anchors
  | .declaration name _ _ none line => [⟨.name name, line⟩]
  | .declaration name _ _ (some init) line => ⟨.name name, line⟩ :: init.anchors
  | .procedure _ body _ => body.anchors
  | .block children _ => anchorsAll children
  | .empty => []

def anchorsAll : List Tree → List Located
  | [] => []
  | tree :: others => tree.anchors ++ anchorsAll others

end

namespace Derivation
open Grammar

theorem rules_anchors : ExpressionRules fun ts tree => tree.anchors.Sublist ts where
  int := List.nil_sublist _
  float := List.nil_sublist _
  name := List.Sublist.refl _
  plus h := h.cons_cons _
  minus h := h.cons_cons _
  parens h := (h.trans (List.sublist_append_left _ _)).cons _
  binary hleft _ hright := hleft.append (hright.cons _)

theorem Declaration.anchors_sublist {ts : Tokens} {tree : Tree} (h : Declaration ts tree) :
    tree.anchors.Sublist ts := by
  obtain ⟨hinit⟩ := h
  cases hinit with
  | missing => exact (List.nil_sublist _).cons_cons _
  | given h => exact ((((rules_anchors.expression h).cons _).cons _).cons _).cons_cons _

theorem Separated.anchors_sublist {separator : Token} {ts : Tokens} {trees : List Tree}
    {P : Tokens → Tree → Prop} (hP : ∀ {ts tree}, P ts tree → tree.anchors.Sublist ts)
    (h : Separated separator P ts trees) : (anchorsAll trees).Sublist ts := by
  induction h with
  | one h =>
    rw [anchorsAll, anchorsAll, List.append_nil]
    exact hP h
  | more h _ ih => exact (hP h).append (ih.cons _)

theorem rules_anchors_statement : StatementRules fun ts tree => tree.anchors.Sublist ts where
  empty := List.nil_sublist _
  block h := ((h.anchors_sublist id).trans (List.sublist_append_left _ _)).cons _
  assignment h := ((rules_anchors.expression h).cons _).cons_cons _
  declarations h := (h.anchors_sublist Declaration.anchors_sublist).cons _
  procedure h := (h.cons _).cons _

theorem Program.anchors_sublist {ts : Tokens} {tree : Tree} (h : Program ts tree) :
    tree.anchors.Sublist ts := by
  obtain ⟨hstatement⟩ := h
  exact (rules_anchors_statement.statement hstatement).cons _

end Derivation

def Occurrence.anchor : Occurrence → Located
  | .declared name _ _ line => ⟨.name name, line⟩
  | .used name line => ⟨.name name, line⟩

def Occurrence.declaredAnchor? : Occurrence → Option Located
  | .declared name _ _ line => some ⟨.name name, line⟩
  | .used .. => none

/-- The names that are declared, as they stand in the text. -/
def declaredAnchors (occurrences : List Occurrence) : List Located :=
  occurrences.filterMap Occurrence.declaredAnchor?

theorem declaredAnchors_append (l r : List Occurrence) :
    declaredAnchors (l ++ r) = declaredAnchors l ++ declaredAnchors r :=
  List.filterMap_append

theorem exists_mem_declaredAnchors {name : String} {occurrences : List Occurrence}
    (h : name ∈ declaredNames occurrences) :
    ∃ line, ⟨.name name, line⟩ ∈ declaredAnchors occurrences := by
  obtain ⟨o, ho, hname⟩ := List.mem_filterMap.mp h
  cases o with
  | used => cases hname
  | declared name' typeName typeLine line =>
    cases hname
    exact ⟨line, List.mem_filterMap.mpr ⟨_, ho, rfl⟩⟩

/-- The token that a failing instruction is reported with. -/
def Instruction.anchor? : Instruction → Option Located
  | .load name line => some ⟨.name name, line⟩
  | .sign s line => some ⟨.mark s.mark, line⟩
  | _ => none

/-- Whatever the check or the evaluation of the tree reports is among its anchors. -/
structure Tree.Anchored (tree : Tree) : Prop where
  occurrence : ∀ o ∈ tree.occurrences, o.anchor ∈ tree.anchors
  declared : (declaredAnchors tree.occurrences).Sublist tree.anchors
  instruction : ∀ i ∈ tree.code, ∀ u ∈ i.anchor?, u ∈ tree.anchors

namespace Tree

theorem IsExpression.used_of_mem {tree : Tree} (h : tree.IsExpression) :
    ∀ o ∈ tree.occurrences, ∃ name line, o = .used name line := by
  induction h with
  | literal => exact List.forall_mem_nil _
  | «variable» => exact List.forall_mem_singleton.mpr ⟨_, _, rfl⟩
  | binary _ _ ihl ihr => exact List.forall_mem_append.mpr ⟨ihl, ihr⟩
  | signed _ ih => exact ih

theorem IsExpression.declaredAnchors_eq {tree : Tree} (h : tree.IsExpression) :
    declaredAnchors tree.occurrences = [] := by
  refine List.filterMap_eq_nil_iff.mpr fun o ho => ?_
  obtain ⟨name, line, rfl⟩ := h.used_of_mem o ho
  rfl

theorem IsExpression.anchored {tree : Tree} (h : tree.IsExpression) : tree.Anchored := by
  refine ⟨?_, by rw [h.declaredAnchors_eq]; exact List.nil_sublist _, ?_⟩
  · induction h with
    | literal => exact List.forall_mem_nil _
    | «variable» => exact List.forall_mem_singleton.mpr List.mem_cons_self
    | signed _ ih => exact fun o ho => List.mem_cons_of_mem _ (ih o ho)
    | binary _ _ ihl ihr =>
      exact List.forall_mem_append.mpr ⟨fun o ho => List.mem_append_left _ (ihl o ho),
        fun o ho => List.mem_append_right _ (ihr o ho)⟩
  · induction h with
    | literal => exact List.forall_mem_singleton.mpr fun _ hu => nomatch hu
    | «variable» =>
      refine List.forall_mem_singleton.mpr ?_
      rintro _ ⟨⟩
      exact List.mem_cons_self
    | signed h ih =>
      rw [code, h.demanded_eq, List.append_nil]
      refine List.forall_mem_append.mpr ⟨fun i hi u hu => List.mem_cons_of_mem _ (ih i hi u hu), ?_⟩
      refine List.forall_mem_singleton.mpr ?_
      rintro _ ⟨⟩
      exact List.mem_cons_self
    | binary hleft hright ihl ihr =>
      rw [code, hleft.demanded_eq, hright.demanded_eq, List.append_nil, List.append_nil]
      refine List.forall_mem_append.mpr ⟨List.forall_mem_append.mpr ⟨?_, ?_⟩, ?_⟩
      · exact fun i hi u hu => List.mem_append_left _ (ihl i hi u hu)
      · exact fun i hi u hu => List.mem_append_right _ (ihr i hi u hu)
      · exact List.forall_mem_singleton.mpr fun _ hu => nomatch hu

theorem IsExpression.anchor_mem_of_store {tree : Tree} (h : tree.IsExpression) {name : String}
    {i : Instruction} (hi : i ∈ tree.code ++ tree.demanded ++ [.store name]) {u : Located}
    (hu : u ∈ i.anchor?) : u ∈ tree.anchors := by
  rcases h.mem_store hi with hi | rfl
  · exact h.anchored.instruction i hi u hu
  · cases hu

theorem IsDeclaration.anchored {tree : Tree} (h : tree.IsDeclaration) : tree.Anchored := by
  obtain ⟨hinit⟩ := h
  rename_i name type typeLine line init
  cases init with
  | none =>
    refine ⟨?_, List.Sublist.refl _, List.forall_mem_nil _⟩
    exact List.forall_mem_singleton.mpr List.mem_cons_self
  | some init =>
    have hinit := hinit init rfl
    refine ⟨?_, hinit.anchored.declared.cons_cons _, ?_⟩
    · refine List.forall_mem_cons.mpr ⟨List.mem_cons_self, fun o ho => ?_⟩
      exact List.mem_cons_of_mem _ (hinit.anchored.occurrence o ho)
    · intro i hi u hu
      exact List.mem_cons_of_mem _ (hinit.anchor_mem_of_store hi hu)

theorem anchored_block {trees : List Tree} (h : ∀ tree ∈ trees, tree.Anchored) (line : Nat) :
    (Tree.block trees line).Anchored := by
  induction trees with
  | nil => exact ⟨List.forall_mem_nil _, List.nil_sublist _, List.forall_mem_nil _⟩
  | cons tree trees ih =>
    obtain ⟨htree, htrees⟩ := List.forall_mem_cons.mp h
    obtain ⟨hoccurrence, hdeclared, hinstruction⟩ := ih htrees
    refine ⟨?_, ?_, ?_⟩
    · exact List.forall_mem_append.mpr
        ⟨fun o ho => List.mem_append_left _ (htree.occurrence o ho),
          fun o ho => List.mem_append_right _ (hoccurrence o ho)⟩
    · have happend := declaredAnchors_append tree.occurrences (occurrencesAll trees)
      exact happend ▸ htree.declared.append hdeclared
    · refine List.forall_mem_append.mpr ⟨List.forall_mem_append.mpr ⟨?_, ?_⟩, ?_⟩
      · exact fun i hi u hu => List.mem_append_left _ (htree.instruction i hi u hu)
      · intro i hi u hu
        rw [eq_drop_of_mem_ignored hi] at hu
        cases hu
      · exact fun i hi u hu => List.mem_append_right _ (hinstruction i hi u hu)

theorem IsStatement.anchored {tree : Tree} (h : tree.IsStatement) : tree.Anchored := by
  induction h with
  | empty => exact ⟨List.forall_mem_nil _, List.nil_sublist _, List.forall_mem_nil _⟩
  | procedure => exact ⟨List.forall_mem_nil _, List.nil_sublist _, List.forall_mem_nil _⟩
  | block _ _ ih => exact anchored_block ih _
  | declarations _ h => exact anchored_block (fun tree htree => (h tree htree).anchored) _
  | assignment h =>
    refine ⟨?_, ?_, ?_⟩
    · refine List.forall_mem_append.mpr ⟨fun o ho => ?_, ?_⟩
      · exact List.mem_cons_of_mem _ (h.anchored.occurrence o ho)
      · exact List.forall_mem_singleton.mpr List.mem_cons_self
    · rw [occurrences, declaredAnchors_append, h.declaredAnchors_eq]
      exact List.nil_sublist _
    · intro i hi u hu
      exact List.mem_cons_of_mem _ (h.anchor_mem_of_store hi hu)

theorem IsDeclaration.exists_type {tree : Tree} (h : tree.IsDeclaration)
    {name typeName : String} {typeLine line : Nat}
    (hmem : .declared name typeName typeLine line ∈ tree.occurrences) :
    ∃ type : BasicType, typeName = type.name := by
  obtain ⟨hinit⟩ := h
  rename_i name' type typeLine' line' init
  cases init with
  | none =>
    cases List.mem_singleton.mp hmem
    exact ⟨type, rfl⟩
  | some init =>
    rcases List.mem_cons.mp hmem with heq | hmem
    · cases heq
      exact ⟨type, rfl⟩
    · obtain ⟨_, _, hused⟩ := (hinit init rfl).used_of_mem _ hmem
      cases hused

theorem mem_occurrencesAll {trees : List Tree} {o : Occurrence} (h : o ∈ occurrencesAll trees) :
    ∃ tree ∈ trees, o ∈ tree.occurrences := by
  induction trees with
  | nil => cases h
  | cons tree trees ih =>
    rcases List.mem_append.mp h with h | h
    · exact ⟨tree, List.mem_cons_self, h⟩
    · obtain ⟨other, hother, h⟩ := ih h
      exact ⟨other, List.mem_cons_of_mem _ hother, h⟩

theorem IsStatement.exists_type {tree : Tree} (h : tree.IsStatement)
    {name typeName : String} {typeLine line : Nat}
    (hmem : .declared name typeName typeLine line ∈ tree.occurrences) :
    ∃ type : BasicType, typeName = type.name := by
  induction h with
  | empty => cases hmem
  | procedure => cases hmem
  | block _ _ ih =>
    obtain ⟨tree, htree, hmem⟩ := mem_occurrencesAll hmem
    exact ih tree htree hmem
  | declarations _ h =>
    obtain ⟨tree, htree, hmem⟩ := mem_occurrencesAll hmem
    exact (h tree htree).exists_type hmem
  | assignment h =>
    rcases List.mem_append.mp hmem with hmem | hmem
    · obtain ⟨_, _, hused⟩ := h.used_of_mem _ hmem
      cases hused
    · cases List.mem_singleton.mp hmem

end Tree

/-- A token of the text, or its end, accounts for the fault and stands on its line. A name is declared
again behind a token that names it too, unless it is the name of a type. -/
inductive Explained (s : TokenStream) : Fault → Prop
  | lexical {f : LexicalFault} (h : s.ending = .fault f) : Explained s (.source (.lexical f))
  | unexpected {e : Expectation} {seen : Sighting} (h : seen ∈ s.sightings) :
      Explained s (.source (.unexpected e seen.token? seen.line))
  | undeclared {name : String} {line : Nat} (h : ⟨.name name, line⟩ ∈ s.tokens) :
      Explained s (.declaration (.undeclared name line))
  | duplicate {name : String} {line : Nat} {before after : List Located}
      (hs : s.tokens = before ++ ⟨.name name, line⟩ :: after)
      (h : (∃ line', ⟨.name name, line'⟩ ∈ before) ∨ ∃ type : BasicType, name = type.name) :
      Explained s (.declaration (.duplicate name line))
  | unbound {name : String} {line : Nat} (h : ⟨.name name, line⟩ ∈ s.tokens) :
      Explained s (.evaluation (.unbound name line))
  | signOnFloat {sign : Sign} {x : Float} {line : Nat} (h : ⟨.mark sign.mark, line⟩ ∈ s.tokens) :
      Explained s (.evaluation (.signOnFloat sign x line))

theorem Explained.within {s : TokenStream} {f : Fault} {first last : Nat} (h : Explained s f)
    (hs : s.Within first last) : first ≤ f.line ∧ f.line ≤ last := by
  cases h with
  | lexical h =>
    have hending := hs.ending
    rw [h] at hending
    exact hending
  | @unexpected e seen h =>
    rcases List.mem_append.mp h with h | h
    · obtain ⟨u, hu, rfl⟩ := List.mem_map.mp h
      exact hs.tokens u hu
    · have hending := hs.ending
      cases hend : s.ending with
      | fault f =>
        rw [hend] at h
        cases h
      | finish line =>
        rw [hend] at h hending
        cases List.mem_singleton.mp h
        exact hending
  | undeclared h => exact hs.tokens _ h
  | duplicate h => exact hs.tokens _ (h ▸ List.mem_append_right _ List.mem_cons_self)
  | unbound h => exact hs.tokens _ h
  | signOnFloat h => exact hs.tokens _ h

theorem Verdict.explained {Phrase : Grammar.Tokens → Tree → Prop} {s : TokenStream}
    {f : SourceFault} (h : Verdict Phrase s (.error f)) : Explained s (.source f) := by
  cases h with
  | lexical hend => exact .lexical hend
  | unexpected before after seen hs => exact .unexpected (hs ▸ List.mem_append_right _ List.mem_cons_self)

theorem exists_split_of_sublist {ts before after : List Located} {u : Located}
    (h : (before ++ u :: after).Sublist ts) :
    ∃ before' after', ts = before' ++ u :: after' ∧ before.Sublist before' := by
  obtain ⟨ts₁, ts₂, rfl, hbefore, hrest⟩ := List.append_sublist_iff.mp h
  obtain ⟨us, vs, rfl, hu, -⟩ := List.cons_sublist_iff.mp hrest
  obtain ⟨us₁, us₂, rfl⟩ := List.append_of_mem hu
  exact ⟨ts₁ ++ us₁, us₂ ++ vs, by simp, hbefore.trans (List.sublist_append_left _ _)⟩

section Stages
variable {s : TokenStream} {tree : Tree} (htokens : tree.anchors.Sublist s.tokens)
include htokens

theorem explained_of_symbols (htree : tree.IsStatement) {f : Fault}
    (h : tree.symbols = .error f) : Explained s f := by
  unfold Tree.symbols at h
  split at h
  · cases h
  · rename_i g table hcheck
    cases h
    rw [check_eq_checkAlong] at hcheck
    obtain ⟨before, o, after, hsplit, -, hproper, rfl, -⟩ := exists_first_of_checkAlong hcheck
    have ho : o ∈ tree.occurrences := hsplit ▸ List.mem_append_right _ List.mem_cons_self
    cases o with
    | used name line => exact .undeclared (htokens.mem (htree.anchored.occurrence _ ho))
    | declared name typeName typeLine line =>
      obtain ⟨type, rfl⟩ := htree.exists_type ho
      have hknows : SymbolTable.initial.knowsType type.name = true := by cases type <;> rfl
      rw [Occurrence.fault, if_pos hknows]
      have hdeclared := htree.anchored.declared.trans htokens
      rw [hsplit, declaredAnchors_append] at hdeclared
      obtain ⟨before', after', hs, hbefore⟩ := exists_split_of_sublist hdeclared
      refine .duplicate hs ?_
      by_cases hearlier : name ∈ declaredNames before
      · obtain ⟨line', hline'⟩ := exists_mem_declaredAnchors hearlier
        exact .inl ⟨line', hbefore.mem hline'⟩
      · rcases lookup?_initial name with hnone | ⟨type, hname, -⟩
        · exact absurd ⟨hknows, hnone, hearlier⟩ hproper
        · exact .inr ⟨type, hname⟩

theorem explained_of_eval (hanchored : tree.Anchored)
    (hrefuse : ∀ kind line, .refuse kind line ∉ tree.code) {env env' : Environment}
    {f : EvaluationFault} (hoverflow : ∀ line, f ≠ .overflow line)
    (h : tree.eval.run env = .error f env') : Explained s (.evaluation f) := by
  obtain ⟨before, i, after, m, hcode, -, -, hfails⟩ := exists_failing h
  have hi : i ∈ tree.code := hcode ▸ List.mem_append_right _ List.mem_cons_self
  cases hfails with
  | load => exact .unbound (htokens.mem (hanchored.instruction _ hi _ rfl))
  | float => exact .signOnFloat (htokens.mem (hanchored.instruction _ hi _ rfl))
  | overflow => exact absurd rfl (hoverflow _)
  | refuse => exact absurd hi (hrefuse _ _)

end Stages

theorem Verdict.explained_of_mapError {Phrase : Grammar.Tokens → Tree → Prop} {s : TokenStream}
    {r : Except SourceFault Tree} {f : Fault} (hverdict : Verdict Phrase s r)
    (h : r.mapError Fault.source = .error f) : Explained s f := by
  cases r with
  | ok tree => cases h
  | error g =>
    cases h
    exact hverdict.explained

namespace Program
variable {source : String} {f : Fault}

theorem explained_of_parse (h : parse source = .error f) :
    Explained (TokenStream.ofString source) f := by
  rw [parse, Grammar.program_eq_wholeText] at h
  exact (Grammar.verdict_wholeText Grammar.recognises_program _).explained_of_mapError h

theorem anchors_sublist_of_parse {tree : Tree} (h : parse source = .ok tree) :
    tree.anchors.Sublist (TokenStream.ofString source).tokens := by
  obtain ⟨l, hl, hprogram⟩ := parse_eq_ok_iff.mp h
  exact TokenStream.tokens_of_toTokenList hl ▸ hprogram.anchors_sublist

theorem explained_of_check (h : check source = .error f) :
    Explained (TokenStream.ofString source) f := by
  rw [check_eq] at h
  rcases bind_eq_error h with hparse | ⟨tree, hparse, hsymbols⟩
  · exact explained_of_parse hparse
  · exact explained_of_symbols (anchors_sublist_of_parse hparse) (isStatement_of_parse hparse)
      hsymbols

theorem explained_of_interpret (h : interpret source = .error f) :
    Explained (TokenStream.ofString source) f := by
  have hstages := h
  rw [interpret_eq] at hstages
  rcases bind_eq_error hstages with hparse | ⟨tree, hparse, houtcome⟩
  · exact explained_of_parse hparse
  · have htree := isStatement_of_parse hparse
    rw [Tree.outcome] at houtcome
    split at houtcome
    · cases houtcome
    · rename_i g env heval
      cases houtcome
      refine explained_of_eval (anchors_sublist_of_parse hparse) htree.anchored htree.refuse_not_mem
        ?_ heval
      rintro line rfl
      exact interpret_ne_overflow source line h

theorem explained_of_run (h : run source = .error f) :
    Explained (TokenStream.ofString source) f := by
  rw [run_eq] at h
  rcases bind_eq_error h with hcheck | ⟨table, -, hinterpret⟩
  · exact explained_of_check hcheck
  · exact explained_of_interpret hinterpret

end Program

namespace Expression
variable {source : String} {f : Fault}

theorem explained_of_parse (h : parse source = .error f) :
    Explained (TokenStream.ofString source) f := by
  rw [parse, Grammar.expression_eq_wholeText] at h
  exact (Grammar.verdict_wholeText Grammar.recognises_expression _).explained_of_mapError h

theorem anchors_sublist_of_parse {tree : Tree} (h : parse source = .ok tree) :
    tree.anchors.Sublist (TokenStream.ofString source).tokens := by
  obtain ⟨l, hl, hexpression⟩ := parse_eq_ok_iff.mp h
  exact TokenStream.tokens_of_toTokenList hl ▸ Derivation.rules_anchors.expression hexpression

theorem explained_of_evaluate (h : evaluate source = .error f) :
    Explained (TokenStream.ofString source) f := by
  have hstages := h
  rw [evaluate_eq] at hstages
  rcases bind_eq_error hstages with hparse | ⟨tree, hparse, hvalue⟩
  · exact explained_of_parse hparse
  · have htree := isExpression_of_parse hparse
    rw [Tree.value, Tree.evalValue, EStateM.run_bind] at hvalue
    rcases htree.eval_cases .empty with ⟨value, heval⟩ | ⟨g, heval⟩
    · rw [heval] at hvalue
      cases hvalue
    · rw [heval] at hvalue
      cases hvalue
      refine explained_of_eval (anchors_sublist_of_parse hparse) htree.anchored htree.refuse_not_mem
        ?_ heval
      rintro line rfl
      exact evaluate_ne_overflow source line h

end Expression

/-- The ways in which a text can fail. -/
def FailsWith (source : String) (f : Fault) : Prop :=
  Program.parse source = .error f ∨ Program.check source = .error f ∨
    Program.interpret source = .error f ∨ Program.run source = .error f ∨
    Expression.parse source = .error f ∨ Expression.evaluate source = .error f

/-- Every fault is explained by what stands on its line, which is a line of the text. -/
theorem fault_explained (source : String) (f : Fault) (h : FailsWith source f) :
    Explained (TokenStream.ofString source) f ∧
      1 ≤ f.line ∧ f.line ≤ 1 + source.toList.count '\n' := by
  have hexplained : Explained (TokenStream.ofString source) f := by
    rcases h with h | h | h | h | h | h
    · exact Program.explained_of_parse h
    · exact Program.explained_of_check h
    · exact Program.explained_of_interpret h
    · exact Program.explained_of_run h
    · exact Expression.explained_of_parse h
    · exact Expression.explained_of_evaluate h
  exact ⟨hexplained, hexplained.within (TokenStream.within_ofString source)⟩

/-- The second of two declarations, on the line of its own name. -/
theorem fault_explained_second_declaration :
    FailsWith "main \x7bvar x: Int;\nvar\nx: Float\x7d" (.declaration (.duplicate "x" 3)) ∧
      Explained (TokenStream.ofString "main \x7bvar x: Int;\nvar\nx: Float\x7d")
        (.declaration (.duplicate "x" 3)) ∧
      1 ≤ 3 ∧ 3 ≤ 1 + "main \x7bvar x: Int;\nvar\nx: Float\x7d".toList.count '\n' := by
  have hparse : Program.parse "main \x7bvar x: Int;\nvar\nx: Float\x7d" =
      .ok (.block [.block [.declaration "x" "Int" 1 none 1] 1,
        .block [.declaration "x" "Float" 3 none 3] 2] 1) := by
    refine Program.parse_eq_ok_iff.mpr ⟨⟨[⟨.keyword .main, 1⟩, ⟨.mark .openBrace, 1⟩,
      ⟨.keyword .var, 1⟩, ⟨.name "x", 1⟩, ⟨.mark .colon, 1⟩, ⟨.type .int, 1⟩, ⟨.mark .semicolon, 1⟩,
      ⟨.keyword .var, 2⟩, ⟨.name "x", 3⟩, ⟨.mark .colon, 3⟩, ⟨.type .float, 3⟩,
      ⟨.mark .closeBrace, 3⟩], 3⟩, TokenStream.toTokenList_ofString (by rfl), ?_⟩
    exact .mk (.block (.more (.declarations (.one (.mk .missing)))
      (.one (.declarations (.one (.mk .missing))))))
  have hfails : FailsWith "main \x7bvar x: Int;\nvar\nx: Float\x7d"
      (.declaration (.duplicate "x" 3)) := by
    refine .inr (.inl ?_)
    rw [Program.check_of_parse hparse]
    rfl
  exact ⟨hfails, fault_explained _ _ hfails⟩

/-- Before a no-break space, `Int` is read as a name. It is then declared once and no other token
names it, and yet the declaration counts as the second one. -/
theorem fault_explained_type_name :
    ∃ tokens, (TokenStream.ofString "main var Int\u00a0: Int").toTokenList = .ok ⟨tokens, 1⟩ ∧
      Program.check "main var Int\u00a0: Int" = .error (.declaration (.duplicate "Int" 1)) ∧
      ¬ ∃ before after line', tokens = before ++ ⟨.name "Int", 1⟩ :: after ∧
        ⟨.name "Int", line'⟩ ∈ before := by
  have htokens : (TokenStream.ofString "main var Int\u00a0: Int").toTokenList =
      .ok ⟨[⟨.keyword .main, 1⟩, ⟨.keyword .var, 1⟩, ⟨.name "Int", 1⟩, ⟨.mark .colon, 1⟩,
        ⟨.type .int, 1⟩], 1⟩ := TokenStream.toTokenList_ofString (by rfl)
  have hparse : Program.parse "main var Int\u00a0: Int" =
      .ok (.block [.declaration "Int" "Int" 1 none 1] 1) :=
    Program.parse_eq_ok_iff.mpr ⟨_, htokens, .mk (.declarations (.one (.mk .missing)))⟩
  refine ⟨_, htokens, ?_, ?_⟩
  · rw [Program.check_of_parse hparse]
    rfl
  · rintro ⟨before, after, line', hsplit, hearlier⟩
    have hcount := congrArg (List.countP (·.token == .name "Int")) hsplit
    have hbefore : 0 < before.countP (·.token == .name "Int") :=
      List.countP_pos_iff.mpr ⟨_, hearlier, by simp⟩
    have hfrom : 0 < (⟨.name "Int", 1⟩ :: after).countP (·.token == .name "Int") :=
      List.countP_pos_iff.mpr ⟨_, List.mem_cons_self, by simp⟩
    rw [List.countP_append] at hcount
    change 1 = _ at hcount
    omega

end Primer
