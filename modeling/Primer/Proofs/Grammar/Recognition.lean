import Primer.Program
import Primer.Proofs.Grammar.Lookahead

/-! # The readers recognise the grammar

What the grammar derives is read back as the same tree, provided that the token behind it does not
go on with it. Together with the decisions of the readers this makes reading and deriving the same.
-/
namespace Primer.Grammar
open Reader Primer.Derivation

def NoOperator (ts : Tokens) : Prop :=
  ∀ u ∈ ts.head?, ∀ level : Level, level.operator? u.token = none

mutual

theorem readFactor_of_factor : ∀ {ts : Tokens} {tree : Tree}, Factor ts tree →
    ∀ ending rest, readFactor ending (ts ++ rest) = .ok (tree, rest)
  | _, _, .int, _, _ => readFactor_int
  | _, _, .float, _, _ => readFactor_float
  | _, _, .name, _, _ => readFactor_name
  | _, _, .plus h, ending, rest => by
    rw [List.cons_append, readFactor_plus, andThen_ok (readFactor_of_factor h ending rest)]
    rfl
  | _, _, .minus h, ending, rest => by
    rw [List.cons_append, readFactor_minus, andThen_ok (readFactor_of_factor h ending rest)]
    rfl
  | _, _, @Factor.parens _ _ _ line' h, ending, rest => by
    have hclose : NoOperator (⟨.mark .closeParen, line'⟩ :: rest) := by
      rintro _ ⟨⟩ level
      cases level <;> rfl
    have hread := readOperation_of_expression h ending _ fun u hu => hclose u hu .product
    rw [readOperationTail_stop fun u hu => hclose u hu .sum] at hread
    rw [List.cons_append, List.append_assoc, readFactor_parens, List.singleton_append,
      andThen_ok hread, closing, andThen_ok take_token]
    rfl

theorem readOperation_of_product : ∀ {ts : Tokens} {tree : Tree}, Product ts tree →
    ∀ ending rest,
      readOperation .product ending (ts ++ rest) = readOperationTail .product tree ending rest
  | _, _, .one h, ending, rest => by
    rw [readOperation_eq, readOperand_product, andThen_ok (readFactor_of_factor h ending rest)]
  | _, _, .more hleft hop hright, ending, rest => by
    rw [List.append_assoc, List.cons_append, readOperation_of_product hleft,
      readOperationTail_go (operator?_eq_some_iff.mpr hop), readOperand_product,
      andThen_ok (readFactor_of_factor hright ending rest)]

theorem readOperation_of_expression : ∀ {ts : Tokens} {tree : Tree}, Expression ts tree →
    ∀ ending rest, (∀ u ∈ rest.head?, Level.product.operator? u.token = none) →
      readOperation .sum ending (ts ++ rest) = readOperationTail .sum tree ending rest
  | _, _, .one h, ending, rest, hrest => by
    have hread := readOperation_of_product h ending rest
    rw [readOperationTail_stop hrest] at hread
    rw [readOperation_eq, readOperand_sum, andThen_ok hread]
  | _, _, .more hleft hop hright, ending, rest, hrest => by
    have hread := readOperation_of_product hright ending rest
    rw [readOperationTail_stop hrest] at hread
    rw [List.append_assoc, List.cons_append, readOperation_of_expression hleft ending _ (by
        rintro _ ⟨⟩
        cases hop <;> rfl),
      readOperationTail_go (operator?_eq_some_iff.mpr hop), readOperand_sum, andThen_ok hread]

end

theorem readOperation_eq_ok {ts rest : Tokens} {tree : Tree} {ending : Ending}
    (h : Expression ts tree) (hrest : NoOperator rest) :
    readOperation .sum ending (ts ++ rest) = .ok (tree, rest) := by
  rw [readOperation_of_expression h ending rest fun u hu => hrest u hu .product,
    readOperationTail_stop fun u hu => hrest u hu .sum]

/-- The tokens are at their end, or one of the marks stands in front. -/
def AtMark (marks : List Mark) (ts : Tokens) : Prop :=
  ∀ u ∈ ts.head?, ∃ m ∈ marks, u.token = .mark m

def statementEnds : List Mark := [.semicolon, .closeBrace]

def declarationEnds : List Mark := [.comma, .semicolon, .closeBrace]

theorem atMark_cons {marks : List Mark} {m : Mark} {line : Nat} {ts : Tokens} (h : m ∈ marks) :
    AtMark marks (⟨.mark m, line⟩ :: ts) := by
  rintro _ ⟨⟩
  exact ⟨m, h, rfl⟩

theorem AtMark.ne {marks : List Mark} {ts : Tokens} (h : AtMark marks ts) {t : Token}
    (ht : ∀ m ∈ marks, .mark m ≠ t) : ∀ u ∈ ts.head?, u.token ≠ t := by
  intro u hu
  obtain ⟨m, hm, hmark⟩ := h u hu
  rw [hmark]
  exact ht m hm

theorem AtMark.endsDeclaration {ts : Tokens} (h : AtMark statementEnds ts) :
    AtMark declarationEnds ts := by
  intro u hu
  obtain ⟨m, hm, hmark⟩ := h u hu
  exact ⟨m, List.mem_cons_of_mem _ hm, hmark⟩

theorem AtMark.noOperator {ts : Tokens} (h : AtMark declarationEnds ts) : NoOperator ts := by
  intro u hu level
  obtain ⟨m, hm, hmark⟩ := h u hu
  rw [hmark]
  simp only [declarationEnds, List.mem_cons, List.not_mem_nil, or_false] at hm
  rcases hm with rfl | rfl | rfl <;> cases level <;> rfl

theorem AtMark.startsNoStatement {ts : Tokens} (h : AtMark statementEnds ts) :
    ∀ u ∈ ts.head?, startsStatement u.token = false := by
  intro u hu
  obtain ⟨m, hm, hmark⟩ := h u hu
  rw [hmark]
  simp only [statementEnds, List.mem_cons, List.not_mem_nil, or_false] at hm
  rcases hm with rfl | rfl <;> rfl

theorem readInitializer_eq_ok {ts rest : Tokens} {init : Option Tree} {ending : Ending}
    (h : Initializer ts init) (hrest : AtMark declarationEnds rest) :
    readInitializer ending (ts ++ rest) = .ok (init, rest) := by
  cases h with
  | missing => exact readInitializer_missing (hrest.ne (by decide))
  | given h =>
    rw [List.cons_append, readInitializer_given, afterEquals,
      andThen_ok (readOperation_eq_ok h hrest.noOperator)]
    rfl

theorem readDeclaration_eq_ok {ts rest : Tokens} {tree : Tree} {ending : Ending}
    (h : Declaration ts tree) (hrest : AtMark declarationEnds rest) :
    readDeclaration ending (ts ++ rest) = .ok (tree, rest) := by
  obtain ⟨h⟩ := h
  rw [readDeclaration_eq, List.cons_append, List.cons_append, List.cons_append,
    andThen_ok take_name, andThen_ok take_token, andThen_ok take_type,
    andThen_ok (readInitializer_eq_ok h hrest)]
  rfl

theorem readDeclarations_eq_ok {ts rest : Tokens} {trees : List Tree} {ending : Ending}
    (h : Separated (.mark .comma) Declaration ts trees) (hrest : AtMark statementEnds rest) :
    readDeclarations ending (ts ++ rest) = .ok (trees, rest) := by
  induction h with
  | one h =>
    rw [readDeclarations_eq, andThen_ok (readDeclaration_eq_ok h hrest.endsDeclaration),
      moreDeclarations_stop (hrest.ne (by decide))]
  | @more us vs tree trees line h _ ih =>
    have hcomma : AtMark declarationEnds (⟨.mark .comma, line⟩ :: (vs ++ rest)) :=
      atMark_cons (by decide)
    rw [readDeclarations_eq, List.append_assoc, List.cons_append,
      andThen_ok (readDeclaration_eq_ok h hcomma), moreDeclarations, andThen_ok ih]
    rfl

mutual

theorem readStatement_of_statement : ∀ {ts : Tokens} {tree : Tree}, Statement ts tree →
    ∀ ending rest, AtMark statementEnds rest → readStatement ending (ts ++ rest) = .ok (tree, rest)
  | _, _, .empty, _, _, hrest => readStatement_empty hrest.startsNoStatement
  | _, _, .block h, ending, rest, _ => by
    rw [List.cons_append, List.append_assoc, List.singleton_append, readStatement_block,
      andThen_ok (readStatements_of_separated h ending _ rest)]
    rfl
  | _, _, .assignment h, ending, rest, hrest => by
    rw [List.cons_append, List.cons_append, readStatement_assignment, readAssignment_eq,
      andThen_ok take_token, afterEquals,
      andThen_ok (readOperation_eq_ok h hrest.endsDeclaration.noOperator)]
    rfl
  | _, _, .declarations h, ending, rest, hrest => by
    rw [List.cons_append, readStatement_declarations, andThen_ok (readDeclarations_eq_ok h hrest)]
    rfl
  | _, _, .procedure h, ending, rest, hrest => by
    rw [List.cons_append, List.cons_append, readStatement_procedure, procedureFrom,
      andThen_ok take_name, andThen_ok (readStatement_of_statement h ending rest hrest)]
    rfl

theorem readStatements_of_separated : ∀ {ts : Tokens} {trees : List Tree},
    Separated (.mark .semicolon) Statement ts trees → ∀ ending line rest,
      readStatements ending (ts ++ ⟨.mark .closeBrace, line⟩ :: rest) = .ok (trees, rest)
  | _, _, .one h, ending, line, rest => by
    rw [readStatements_eq,
      andThen_ok (readStatement_of_statement h ending _ (atMark_cons (by decide)))]
    rfl
  | _, _, .more h hrest, ending, line, rest => by
    rw [List.append_assoc, List.cons_append, readStatements_eq,
      andThen_ok (readStatement_of_statement h ending _ (atMark_cons (by decide))), moreStatements,
      andThen_ok (readStatements_of_separated hrest ending line rest)]
    rfl

end

/-- A reader that decides on phrases and reads each of them to its end. -/
structure Recognises (read : Reader Tree) (Phrase : Tokens → Tree → Prop) : Prop where
  decision : ∀ ts, Decision read Phrase ts
  complete : ∀ {ts tree}, Phrase ts tree → ∀ ending, read ending ts = .ok (tree, [])

theorem recognises_expression : Recognises (readOperation .sum) Expression where
  decision := decision_expression
  complete h ending := by
    have hread : readOperation .sum ending (_ ++ []) = .ok (_, []) :=
      readOperation_eq_ok h (by simp [NoOperator])
    rwa [List.append_nil] at hread

theorem recognises_program : Recognises readProgram Program where
  decision := decision_program
  complete := by
    rintro _ tree ⟨h⟩ ending
    have hread := readStatement_of_statement h ending [] (by simp [AtMark])
    rw [List.append_nil] at hread
    rw [readProgram, andThen_ok take_token, hread]

theorem wholeText_eq_ok_iff {read : Reader Tree} {Phrase : Tokens → Tree → Prop}
    (hread : Recognises read Phrase) {s : TokenStream} {tree : Tree} :
    wholeText read s = .ok tree ↔
      ∃ l, s.toTokenList = .ok l ∧ Phrase l.tokens tree := by
  obtain ⟨tokens, ending⟩ := s
  constructor
  · intro h
    cases hread.decision tokens with
    | accepts used rest a hts hphrase hok =>
      simp only [wholeText, hts, hok ending rest rfl] at h
      rcases rest with _ | ⟨u, rest⟩
      · cases ending with
        | fault f => cases h
        | finish line =>
          cases h
          exact ⟨⟨tokens, line⟩, rfl, by simpa [hts] using hphrase⟩
      · cases h
    | refuses used rest e hts hopen herror =>
      simp only [wholeText, hts, herror ending rest rfl] at h
      cases h
  · rintro ⟨l, hl, hphrase⟩
    cases ending with
    | fault f => cases hl
    | finish line =>
      cases hl
      simp only [wholeText, hread.complete hphrase, finish]

end Primer.Grammar

namespace Primer

theorem mapError_eq_ok_iff {ε ε' α : Type} {f : ε → ε'} {r : Except ε α} {a : α} :
    r.mapError f = .ok a ↔ r = .ok a := by
  cases r with
  | ok b =>
    constructor
    · rintro ⟨⟩
      rfl
    · rintro ⟨⟩
      rfl
  | error e => exact iff_of_false nofun nofun

theorem Program.parse_eq_ok_iff {source : String} {tree : Tree} :
    Program.parse source = .ok tree ↔
      ∃ l, (TokenStream.ofString source).toTokenList = .ok l ∧
        Derivation.Program l.tokens tree := by
  rw [Program.parse, mapError_eq_ok_iff, Grammar.program_eq_wholeText]
  exact Grammar.wholeText_eq_ok_iff Grammar.recognises_program

theorem Expression.parse_eq_ok_iff {source : String} {tree : Tree} :
    Expression.parse source = .ok tree ↔
      ∃ l, (TokenStream.ofString source).toTokenList = .ok l ∧
        Derivation.Expression l.tokens tree := by
  rw [Expression.parse, mapError_eq_ok_iff, Grammar.expression_eq_wholeText]
  exact Grammar.wholeText_eq_ok_iff Grammar.recognises_expression

/-- A text has a tree exactly if it has tokens and the grammar derives the tree from them. -/
theorem parse_eq_ok_iff_derives (source : String) (tree : Tree) :
    (Program.parse source = .ok tree ↔
      ∃ l, (TokenStream.ofString source).toTokenList = .ok l ∧ Derivation.Program l.tokens tree) ∧
    (Expression.parse source = .ok tree ↔
      ∃ l, (TokenStream.ofString source).toTokenList = .ok l ∧
        Derivation.Expression l.tokens tree) :=
  ⟨Program.parse_eq_ok_iff, Expression.parse_eq_ok_iff⟩

end Primer
