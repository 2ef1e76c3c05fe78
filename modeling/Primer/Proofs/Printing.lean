import Primer.Proofs.Grammar.Literals
import Primer.Proofs.Grammar.Shape
import Primer.Proofs.Lexing.Spelling
import Primer.Proofs.Lines.Renumbering

/-! # Printing

A tree is printed on one line with a blank between any two tokens and no more parentheses than its
shape calls for. Reading the text gives the tree back: the grammar derives the tree from the tokens
that are printed, and each of them is read back from the way in which it is written.
-/
namespace Primer
open Grammar

def BinaryOperator.level : BinaryOperator → Level
  | .add | .subtract => .sum
  | .multiply | .divide => .product

def BinaryOperator.mark : BinaryOperator → Mark
  | .add => .plus
  | .subtract => .minus
  | .multiply => .star
  | .divide => .slash

/-- The level of the operator of a binary operation. -/
def Tree.level? : Tree → Option Level
  | .binary _ op _ _ => some op.level
  | _ => none

/-- A sum needs parentheses as an operand of a product. -/
def Tree.looserThan (tree : Tree) (op : BinaryOperator) : Bool :=
  tree.level? == some .sum && op.level == .product

/-- On the right so does an operation of the same level, since operators group to the left. -/
def Tree.looserOnRight (tree : Tree) (op : BinaryOperator) : Bool :=
  tree.looserThan op || tree.level? == some op.level

/-- The first tree of a block tells what the block holds. -/
def startsWithDeclaration : List Tree → Bool
  | .declaration .. :: _ => true
  | _ => false

def enclose (needed : Bool) (ts : List Token) : List Token :=
  if needed then .mark .openParen :: (ts ++ [.mark .closeParen]) else ts

mutual

/-- The tokens that the tree is printed with. -/
def Tree.tokens : Tree → List Token
  | .literal (.int n) _ => [.int n]
  | .literal (.float x) _ => [.float x]
  | .binary left op right _ =>
    enclose (left.looserThan op) left.tokens ++
      .mark op.mark :: enclose (right.looserOnRight op) right.tokens
  | .signed sign operand _ => .mark sign.mark :: enclose operand.level?.isSome operand.tokens
  | .variable name _ => [.name name]
  | .assignment name value _ => .name name :: .mark .equals :: value.tokens
  | .declaration name typeName _ none _ => [.name name, .mark .colon, .ofWord typeName]
  | .declaration name typeName _ (some init) _ =>
    .name name :: .mark .colon :: .ofWord typeName :: .mark .equals :: init.tokens
  | .procedure name body _ => .keyword .proc :: .name name :: body.tokens
  | .block children _ =>
    if startsWithDeclaration children then .keyword .var :: tokensSeparated .comma children
    else .mark .openBrace :: (tokensSeparated .semicolon children ++ [.mark .closeBrace])
  | .empty => []

def tokensSeparated (separator : Mark) : List Tree → List Token
  | [] => []
  | [tree] => tree.tokens
  | tree :: next :: others =>
    tree.tokens ++ .mark separator :: tokensSeparated separator (next :: others)

end

def onFirstLine (ts : List Token) : Tokens := ts.map fun t => ⟨t, 1⟩

def Tree.onOneLine (tree : Tree) : Tree := tree.mapLines fun _ => 1

theorem onFirstLine_append (ts us : List Token) :
    onFirstLine (ts ++ us) = onFirstLine ts ++ onFirstLine us :=
  List.map_append

namespace Derivation

theorem joins_mark (op : BinaryOperator) : Joins op.level (.mark op.mark) op := by
  cases op <;> constructor

/-- The grammar derives an expression from its tokens wherever it stands without parentheses. -/
structure Printed (tree : Tree) : Prop where
  expression : Expression (onFirstLine tree.tokens) tree.onOneLine
  product : tree.level? ≠ some .sum → Product (onFirstLine tree.tokens) tree.onOneLine
  factor : tree.level? = none → Factor (onFirstLine tree.tokens) tree.onOneLine

namespace Printed
variable {tree : Tree}

theorem of_factor (h : Factor (onFirstLine tree.tokens) tree.onOneLine) : Printed tree where
  expression := .one (.one h)
  product _ := .one h
  factor _ := h

theorem factor_parens (h : Printed tree) :
    Factor (onFirstLine (enclose true tree.tokens)) tree.onOneLine := by
  have hparens : onFirstLine (enclose true tree.tokens) = ⟨.mark .openParen, 1⟩ ::
      (onFirstLine tree.tokens ++ [⟨.mark .closeParen, 1⟩]) := by
    simp [enclose, onFirstLine]
  rw [hparens]
  exact .parens h.expression

theorem factor_enclose (h : Printed tree) {needed : Bool}
    (hneeded : tree.level? ≠ none → needed = true) :
    Factor (onFirstLine (enclose needed tree.tokens)) tree.onOneLine := by
  cases needed with
  | true => exact h.factor_parens
  | false => exact h.factor (by simpa using hneeded)

theorem product_enclose (h : Printed tree) {needed : Bool}
    (hneeded : tree.level? = some .sum → needed = true) :
    Product (onFirstLine (enclose needed tree.tokens)) tree.onOneLine := by
  cases needed with
  | true => exact .one h.factor_parens
  | false => exact h.product (by simpa using hneeded)

end Printed

theorem printed_binary {left right : Tree} (op : BinaryOperator) (line : Nat)
    (hleft : Printed left) (hright : Printed right) : Printed (.binary left op right line) := by
  have htokens : onFirstLine (Tree.binary left op right line).tokens =
      onFirstLine (enclose (left.looserThan op) left.tokens) ++
        ⟨.mark op.mark, 1⟩ :: onFirstLine (enclose (right.looserOnRight op) right.tokens) := by
    rw [Tree.tokens, onFirstLine_append]
    rfl
  have hop := joins_mark op
  cases hlevel : op.level with
  | product =>
    rw [hlevel] at hop
    have hproduct : Product (onFirstLine (Tree.binary left op right line).tokens)
        (Tree.binary left op right line).onOneLine := by
      rw [htokens]
      refine .more (hleft.product_enclose ?_) hop (hright.factor_enclose ?_)
      · intro hsum
        simp [Tree.looserThan, hsum, hlevel]
      · intro hsome
        cases hright : right.level? with
        | none => exact absurd hright hsome
        | some level => cases level <;> simp [Tree.looserOnRight, Tree.looserThan, hright, hlevel]
    exact ⟨.one hproduct, fun _ => hproduct, nofun⟩
  | sum =>
    rw [hlevel] at hop
    have hnone : left.looserThan op = false := by simp [Tree.looserThan, hlevel]
    have hexpression : Expression (onFirstLine (Tree.binary left op right line).tokens)
        (Tree.binary left op right line).onOneLine := by
      rw [htokens, hnone]
      refine .more hleft.expression hop (hright.product_enclose ?_)
      intro hsum
      simp [Tree.looserOnRight, hsum, hlevel]
    refine ⟨hexpression, fun hne => absurd ?_ hne, nofun⟩
    rw [Tree.level?, hlevel]

theorem Printed.of_isExpression {tree : Tree} (h : tree.IsExpression) : Printed tree := by
  induction h with
  | @literal value line =>
    cases value with
    | int n => exact .of_factor .int
    | float x => exact .of_factor .float
  | «variable» => exact .of_factor .name
  | binary _ _ ihl ihr => exact printed_binary _ _ ihl ihr
  | @signed sign operand line _ ih =>
    have hoperand : Factor (onFirstLine (enclose operand.level?.isSome operand.tokens))
        operand.onOneLine := ih.factor_enclose Option.isSome_iff_ne_none.mpr
    refine .of_factor ?_
    cases sign with
    | plus => exact .plus hoperand
    | minus => exact .minus hoperand

theorem separated_tokens {P : Tokens → Tree → Prop} (separator : Mark) {trees : List Tree}
    (hne : trees ≠ []) (h : ∀ tree ∈ trees, P (onFirstLine tree.tokens) tree.onOneLine) :
    Separated (.mark separator) P (onFirstLine (tokensSeparated separator trees))
      (mapLinesAll (fun _ => 1) trees) := by
  induction trees with
  | nil => exact absurd rfl hne
  | cons tree others ih =>
    obtain ⟨htree, hothers⟩ := List.forall_mem_cons.mp h
    cases others with
    | nil => exact .one htree
    | cons next others =>
      have htokens : onFirstLine (tokensSeparated separator (tree :: next :: others)) =
          onFirstLine tree.tokens ++ ⟨.mark separator, 1⟩ ::
            onFirstLine (tokensSeparated separator (next :: others)) := by
        rw [tokensSeparated, onFirstLine_append]
        rfl
      rw [htokens]
      exact .more htree (ih (List.cons_ne_nil _ _) hothers)

theorem declaration_tokens {tree : Tree} (h : tree.IsDeclaration) :
    Declaration (onFirstLine tree.tokens) tree.onOneLine := by
  obtain ⟨hinit⟩ := h
  rename_i name type typeLine line init
  have htype : Token.ofWord type.name = .type type := by cases type <;> rfl
  cases init with
  | none =>
    have htokens : onFirstLine (Tree.declaration name type.name typeLine none line).tokens =
        [⟨.name name, 1⟩, ⟨.mark .colon, 1⟩, ⟨.type type, 1⟩] := by
      rw [Tree.tokens, htype]
      rfl
    rw [htokens]
    exact .mk .missing
  | some init =>
    have htokens : onFirstLine (Tree.declaration name type.name typeLine (some init) line).tokens =
        ⟨.name name, 1⟩ :: ⟨.mark .colon, 1⟩ :: ⟨.type type, 1⟩ :: ⟨.mark .equals, 1⟩ ::
          onFirstLine init.tokens := by
      rw [Tree.tokens, htype]
      rfl
    rw [htokens]
    exact .mk (.given (Printed.of_isExpression (hinit init rfl)).expression)

theorem startsWithDeclaration_of_statements {trees : List Tree}
    (h : ∀ tree ∈ trees, tree.IsStatement) : startsWithDeclaration trees = false := by
  cases trees with
  | nil => rfl
  | cons tree others =>
    cases h tree List.mem_cons_self <;> rfl

theorem startsWithDeclaration_of_declarations {trees : List Tree} (hne : trees ≠ [])
    (h : ∀ tree ∈ trees, tree.IsDeclaration) : startsWithDeclaration trees = true := by
  cases trees with
  | nil => exact absurd rfl hne
  | cons tree others =>
    cases h tree List.mem_cons_self
    rfl

theorem statement_tokens {tree : Tree} (h : tree.IsStatement) :
    Statement (onFirstLine tree.tokens) tree.onOneLine := by
  induction h with
  | empty => exact .empty
  | assignment h => exact .assignment (Printed.of_isExpression h).expression
  | procedure _ ih => exact .procedure ih
  | @block trees line hne h ih =>
    have htokens : onFirstLine (Tree.block trees line).tokens = ⟨.mark .openBrace, 1⟩ ::
        (onFirstLine (tokensSeparated .semicolon trees) ++ [⟨.mark .closeBrace, 1⟩]) := by
      rw [Tree.tokens, startsWithDeclaration_of_statements h]
      simp [onFirstLine]
    rw [htokens]
    exact .block (separated_tokens .semicolon hne ih)
  | @declarations trees line hne h =>
    have htokens : onFirstLine (Tree.block trees line).tokens = ⟨.keyword .var, 1⟩ ::
        onFirstLine (tokensSeparated .comma trees) := by
      rw [Tree.tokens, startsWithDeclaration_of_declarations hne h]
      rfl
    rw [htokens]
    exact .declarations (separated_tokens .comma hne fun tree htree =>
      declaration_tokens (h tree htree))

end Derivation

/-- A way to write a float, with digits on both sides of the point. -/
structure Numeral where
  whole : List Char
  fraction : List Char
  whole_ne_nil : whole ≠ []
  fraction_ne_nil : fraction ≠ []
  isDigit : (whole ++ fraction).all Char.isDigit = true

/-- The float nearest to the number that is written. -/
def Numeral.value (n : Numeral) : Float :=
  .ofScientific (Nat.ofDigitChars 10 (n.whole ++ n.fraction) 0) true n.fraction.length

def Numeral.zero : Numeral := ⟨['0'], ['0'], by simp, by simp, by decide⟩

/-- The lexeme of a token. A float can be written in more than one way, so one has to be chosen. -/
def Token.lexeme (spell : Float → Numeral) : Token → Lexeme
  | .int n => .digits (Nat.toDigits 10 n.toInt.toNat)
  | .float x => .decimal (spell x).whole (spell x).fraction
  | .name x => .word x.toList
  | .keyword k => .word k.spelling.toList
  | .type t => .word t.name.toList
  | .mark m => .mark m

def Tree.print (spell : Float → Numeral) (tree : Tree) : String :=
  .ofList (Lexing.spaced (tree.tokens.map (Token.lexeme spell)))

theorem Tree.toList_print (spell : Float → Numeral) (tree : Tree) :
    (tree.print spell).toList = Lexing.spaced (tree.tokens.map (Token.lexeme spell)) :=
  String.toList_ofList

namespace Lexing
variable {spell : Float → Numeral}

theorem writes_int {n : Int64} (h : 0 ≤ n.toInt) : Writes ((Token.int n).lexeme spell) (.int n) where
  writable := .digits Nat.toDigits_ne_nil fun _ =>
    Nat.isDigit_of_mem_toDigits (by decide) (by decide)
  reading_eq line column := by
    have hlt : n.toInt < 9223372036854775808 := Int64.toInt_lt n
    have hle : n.toInt.toNat ≤ Lexeme.largestInteger := by
      unfold Lexeme.largestInteger
      omega
    have hint : Int64.ofNat n.toInt.toNat = n := by
      apply Int64.toInt_inj.mp
      rw [Int64.toInt_ofNat_of_lt (by omega)]
      omega
    simp only [Token.lexeme, Lexeme.reading, Nat.ofDigitChars_ten_toDigits, if_pos hle, hint]

theorem writes_float {x : Float} (h : (spell x).value = x) :
    Writes ((Token.float x).lexeme spell) (.float x) where
  writable := by
    have hdigits := List.all_eq_true.mp (spell x).isDigit
    exact .decimal (spell x).whole_ne_nil (fun c hc => hdigits c (List.mem_append_left _ hc))
      fun c hc => hdigits c (List.mem_append_right _ hc)
  reading_eq line column := by
    rw [Token.lexeme, Lexeme.reading]
    exact congrArg (fun y => Reading.token (.float y) line) h

theorem writes_keyword (k : Keyword) : Writes ((Token.keyword k).lexeme spell) (.keyword k) := by
  cases k <;> exact writes_word (by decide) rfl

theorem writes_type (t : BasicType) : Writes ((Token.type t).lexeme spell) (.type t) := by
  cases t <;> exact writes_word (by decide) rfl

end Lexing

/-- The integers that are written without a sign and the floats that have a numeral. -/
def Value.Writable : Value → Prop
  | .int n => 0 ≤ n.toInt
  | .float x => ∃ n : Numeral, n.value = x

/-- The names and numbers of the tree can be written, and it stands on the first line. -/
structure Tree.Writable (tree : Tree) : Prop where
  lines : tree.mapLines (fun _ => 1) = tree
  identifiers : ∀ name ∈ tree.identifiers, Lexing.IsIdentifier name
  literals : ∀ value ∈ tree.literals, value.Writable

/-- The numerals that are chosen for the floats of the tree have their values. -/
def Spells (spell : Float → Numeral) (tree : Tree) : Prop :=
  ∀ x, .float x ∈ tree.literals → (spell x).value = x

theorem Tree.Writable.exists_spells {tree : Tree} (h : tree.Writable) :
    ∃ spell, Spells spell tree := by
  have hnumeral : ∀ x, ∃ n : Numeral, .float x ∈ tree.literals → n.value = x := by
    intro x
    by_cases hx : .float x ∈ tree.literals
    · obtain ⟨n, hn⟩ := h.literals _ hx
      exact ⟨n, fun _ => hn⟩
    · exact ⟨.zero, fun hx' => absurd hx' hx⟩
  exact Classical.skolem.mp hnumeral

section Reading
variable {tree : Tree} {spell : Float → Numeral} (h : tree.Writable) (hspell : Spells spell tree)
include h hspell

theorem Tree.Writable.writes_tokens
    (hliterals : tree.literals = Tokens.literals (onFirstLine tree.tokens))
    (hidentifiers : tree.identifiers = Tokens.identifiers (onFirstLine tree.tokens)) :
    ∀ t ∈ tree.tokens, Lexing.Writes (t.lexeme spell) t := by
  intro t ht
  have hmem : ⟨t, 1⟩ ∈ onFirstLine tree.tokens := List.mem_map.mpr ⟨t, ht, rfl⟩
  have hvalue : ∀ value, t.literal? = some value → value ∈ tree.literals := by
    intro value hvalue
    rw [hliterals]
    exact List.mem_filterMap.mpr ⟨_, hmem, hvalue⟩
  cases t with
  | int n => exact Lexing.writes_int (h.literals _ (hvalue _ rfl))
  | float x => exact Lexing.writes_float (hspell x (hvalue _ rfl))
  | name x =>
    refine (h.identifiers x ?_).writes
    rw [hidentifiers]
    exact List.mem_filterMap.mpr ⟨_, hmem, rfl⟩
  | keyword k => exact Lexing.writes_keyword k
  | type t => exact Lexing.writes_type t
  | mark m => exact Lexing.writes_mark m

theorem Program.parse_print (hshape : tree.IsStatement) :
    Program.parse ("main " ++ tree.print spell) = .ok tree := by
  have hderives := Derivation.statement_tokens hshape
  rw [Tree.onOneLine, h.lines] at hderives
  have hwrites := h.writes_tokens hspell (collects_literals.statementRules.statement hderives)
    (collects_identifiers.statementRules.statement hderives)
  have htext : ("main " ++ tree.print spell).toList = ((Token.keyword .main).lexeme spell).spelling ++
      ' ' :: Lexing.spaced (tree.tokens.map (Token.lexeme spell)) := by
    rw [String.toList_append, Tree.toList_print]
    rfl
  have hmain : Lexing.Writes ((Token.keyword .main).lexeme spell) (.keyword .main) :=
    Lexing.writes_keyword .main
  refine Program.parse_eq_ok_iff.mpr
    ⟨⟨⟨.keyword .main, 1⟩ :: onFirstLine tree.tokens, 1⟩, ?_, .mk hderives⟩
  rw [TokenStream.ofString, Cursor.ofString, htext, hmain.ofCursor_eq (Lexing.endsBefore_space _ _),
    Lexing.ofCursor_space, Lexing.ofCursor_spaced hwrites]
  rfl

theorem Expression.parse_print (hshape : tree.IsExpression) :
    Expression.parse (tree.print spell) = .ok tree := by
  have hderives := (Derivation.Printed.of_isExpression hshape).expression
  rw [Tree.onOneLine, h.lines] at hderives
  have hwrites := h.writes_tokens hspell (collects_literals.expressionRules.expression hderives)
    (collects_identifiers.expressionRules.expression hderives)
  refine Expression.parse_eq_ok_iff.mpr ⟨⟨_, 1⟩, ?_, hderives⟩
  rw [TokenStream.ofString, Cursor.ofString, Tree.toList_print, Lexing.ofCursor_spaced hwrites]
  rfl

end Reading

/-- Whatever numerals are chosen for the floats, reading undoes printing, for programs and for
expressions; and there always are such numerals. -/
theorem read_of_print {tree : Tree} (h : tree.Writable) :
    (∃ spell, Spells spell tree) ∧
    ∀ spell, Spells spell tree →
      (tree.IsStatement → Program.parse ("main " ++ tree.print spell) = .ok tree) ∧
      (tree.IsExpression → Expression.parse (tree.print spell) = .ok tree) := by
  refine ⟨h.exists_spells, fun spell hspell => ⟨?_, ?_⟩⟩
  · exact Program.parse_print h hspell
  · exact Expression.parse_print h hspell

/-- A sum keeps its parentheses under a sign, and the product has none. -/
theorem read_of_print_negated_sum :
    ∃ tree spell, Tree.Writable tree ∧ Spells spell tree ∧
      tree.print spell = "\x7b var y : Float ; y = - ( 1 + 2.5 ) * y \x7d" ∧
      Program.parse "main \x7b var y : Float ; y = - ( 1 + 2.5 ) * y \x7d" = .ok tree := by
  have hprinted : ∃ tree spell, Tree.Writable tree ∧ Spells spell tree ∧ tree.IsStatement ∧
      tree.print spell = "\x7b var y : Float ; y = - ( 1 + 2.5 ) * y \x7d" := by
    refine ⟨.block [.block [.declaration "y" BasicType.float.name 1 none 1] 1,
      .assignment "y" (.binary (.signed .minus (.binary (.literal (.int 1) 1) .add
        (.literal (.float (.ofScientific 25 true 1)) 1) 1) 1) .multiply (.variable "y" 1) 1) 1] 1,
      fun _ => ⟨['2'], ['5'], by simp, by simp, by decide⟩, ⟨by rfl, ?_, ?_⟩, ?_, ?_, by rfl⟩
    · intro name hname
      have hy : name = "y" := by simpa [Tree.identifiers, identifiersAll] using hname
      exact hy ▸ ⟨by decide, by decide⟩
    · intro value hvalue
      have hor : value = .int 1 ∨ value = .float (.ofScientific 25 true 1) := by
        simpa [Tree.literals, literalsAll] using hvalue
      rcases hor with rfl | rfl
      · exact (by decide : (0 : Int) ≤ Int64.toInt 1)
      · exact ⟨⟨['2'], ['5'], by simp, by simp, by decide⟩, by rfl⟩
    · intro x hx
      have hfloat : x = .ofScientific 25 true 1 := by simpa [Tree.literals, literalsAll] using hx
      exact hfloat ▸ rfl
    · refine .block (by simp) (List.forall_mem_cons.mpr ⟨?_, List.forall_mem_singleton.mpr ?_⟩)
      · exact .declarations (by simp) (List.forall_mem_singleton.mpr (.mk (by simp)))
      · exact .assignment (.binary (.signed (.binary .literal .literal)) .variable)
  obtain ⟨tree, spell, hwritable, hspell, hshape, htext⟩ := hprinted
  have hparse := ((read_of_print hwritable).2 spell hspell).1 hshape
  rw [htext] at hparse
  exact ⟨tree, spell, hwritable, hspell, htext, hparse⟩

end Primer
