import Primer.Grammar.Statement

/-! # The grammar as a relation

Each rule of the grammar is a constructor that joins the tokens of its parts and the tree that they
stand for. Nothing here mentions a reader: a derivation does not say how its tokens are found, and a
token may carry any line. What each rule passes on from its parts to the whole holds of everything
that is derived.
-/
namespace Primer.Derivation
open Grammar

/-- The token stands between two operands of the level as this operator. -/
inductive Joins : Level → Token → BinaryOperator → Prop
  | add : Joins .sum (.mark .plus) .add
  | subtract : Joins .sum (.mark .minus) .subtract
  | multiply : Joins .product (.mark .star) .multiply
  | divide : Joins .product (.mark .slash) .divide

/-- `operand (operator operand)*`, grouped to the left. A pair has the line of its operator. -/
inductive Chain (level : Level) (Operand : Tokens → Tree → Prop) : Tokens → Tree → Prop
  | one {ts : Tokens} {tree : Tree} (h : Operand ts tree) : Chain level Operand ts tree
  | more {ts us : Tokens} {left right : Tree} {t : Token} {op : BinaryOperator} {line : Nat}
      (hleft : Chain level Operand ts left) (hop : Joins level t op) (hright : Operand us right) :
      Chain level Operand (ts ++ ⟨t, line⟩ :: us) (.binary left op right line)

/-- `("+" | "-") factor | integer | decimal | name | "(" expression ")"`. -/
inductive Factor : Tokens → Tree → Prop
  | int {n : Int64} {line : Nat} : Factor [⟨.int n, line⟩] (.literal (.int n) line)
  | float {x : Float} {line : Nat} : Factor [⟨.float x, line⟩] (.literal (.float x) line)
  | name {x : String} {line : Nat} : Factor [⟨.name x, line⟩] (.variable x line)
  | plus {ts : Tokens} {tree : Tree} {line : Nat} (h : Factor ts tree) :
      Factor (⟨.mark .plus, line⟩ :: ts) (.signed .plus tree line)
  | minus {ts : Tokens} {tree : Tree} {line : Nat} (h : Factor ts tree) :
      Factor (⟨.mark .minus, line⟩ :: ts) (.signed .minus tree line)
  | parens {ts : Tokens} {tree : Tree} {line line' : Nat}
      (h : Chain .sum (Chain .product Factor) ts tree) :
      Factor (⟨.mark .openParen, line⟩ :: (ts ++ [⟨.mark .closeParen, line'⟩])) tree

/-- `factor (("*" | "/") factor)*`. -/
abbrev Product : Tokens → Tree → Prop := Chain .product Factor

/-- `product (("+" | "-") product)*`. -/
abbrev Expression : Tokens → Tree → Prop := Chain .sum Product

/-- `phrase (separator phrase)*`. -/
inductive Separated (separator : Token) (Phrase : Tokens → Tree → Prop) :
    Tokens → List Tree → Prop
  | one {ts : Tokens} {tree : Tree} (h : Phrase ts tree) : Separated separator Phrase ts [tree]
  | more {ts us : Tokens} {tree : Tree} {trees : List Tree} {line : Nat}
      (h : Phrase ts tree) (hrest : Separated separator Phrase us trees) :
      Separated separator Phrase (ts ++ ⟨separator, line⟩ :: us) (tree :: trees)

/-- `("=" expression)?`. -/
inductive Initializer : Tokens → Option Tree → Prop
  | missing : Initializer [] none
  | given {ts : Tokens} {tree : Tree} {line : Nat} (h : Expression ts tree) :
      Initializer (⟨.mark .equals, line⟩ :: ts) (some tree)

/-- `name ":" type initializer`. -/
inductive Declaration : Tokens → Tree → Prop
  | mk {x : String} {type : BasicType} {ts : Tokens} {init : Option Tree}
      {line colonLine typeLine : Nat} (h : Initializer ts init) :
      Declaration (⟨.name x, line⟩ :: ⟨.mark .colon, colonLine⟩ :: ⟨.type type, typeLine⟩ :: ts)
        (.declaration x type.name typeLine init line)

/-- `block | assignment | declarations | procedure | nothing`. -/
inductive Statement : Tokens → Tree → Prop
  | empty : Statement [] .empty
  | block {ts : Tokens} {trees : List Tree} {line line' : Nat}
      (h : Separated (.mark .semicolon) Statement ts trees) :
      Statement (⟨.mark .openBrace, line⟩ :: (ts ++ [⟨.mark .closeBrace, line'⟩]))
        (.block trees line)
  | assignment {x : String} {ts : Tokens} {value : Tree} {line line' : Nat}
      (h : Expression ts value) :
      Statement (⟨.name x, line⟩ :: ⟨.mark .equals, line'⟩ :: ts) (.assignment x value line)
  | declarations {ts : Tokens} {trees : List Tree} {line : Nat}
      (h : Separated (.mark .comma) Declaration ts trees) :
      Statement (⟨.keyword .var, line⟩ :: ts) (.block trees line)
  | procedure {x : String} {ts : Tokens} {body : Tree} {line line' : Nat} (h : Statement ts body) :
      Statement (⟨.keyword .proc, line⟩ :: ⟨.name x, line'⟩ :: ts) (.procedure x body line)

/-- `"main" statement`. -/
inductive Program : Tokens → Tree → Prop
  | mk {ts : Tokens} {tree : Tree} {line : Nat} (h : Statement ts tree) :
      Program (⟨.keyword .main, line⟩ :: ts) tree

/-- What each rule for expressions passes on. Parentheses do so too, as they leave no trace. -/
structure ExpressionRules (P : Tokens → Tree → Prop) : Prop where
  int : ∀ {n line}, P [⟨.int n, line⟩] (.literal (.int n) line)
  float : ∀ {x line}, P [⟨.float x, line⟩] (.literal (.float x) line)
  name : ∀ {x line}, P [⟨.name x, line⟩] (.variable x line)
  plus : ∀ {ts tree line}, P ts tree → P (⟨.mark .plus, line⟩ :: ts) (.signed .plus tree line)
  minus : ∀ {ts tree line}, P ts tree → P (⟨.mark .minus, line⟩ :: ts) (.signed .minus tree line)
  parens : ∀ {ts tree line line'}, P ts tree →
    P (⟨.mark .openParen, line⟩ :: (ts ++ [⟨.mark .closeParen, line'⟩])) tree
  binary : ∀ {level ts us left right t op line}, P ts left → Joins level t op → P us right →
    P (ts ++ ⟨t, line⟩ :: us) (.binary left op right line)

theorem ExpressionRules.expression {P : Tokens → Tree → Prop} (rules : ExpressionRules P)
    {ts : Tokens} {tree : Tree} (h : Expression ts tree) : P ts tree := by
  have hchain {level : Level} {Operand : Tokens → Tree → Prop}
      (hoperand : ∀ {ts tree}, Operand ts tree → P ts tree) {ts : Tokens} {tree : Tree}
      (h : Chain level Operand ts tree) : P ts tree := by
    induction h with
    | one h => exact hoperand h
    | more _ hop hright ih => exact rules.binary ih hop (hoperand hright)
  have hfactor {ts : Tokens} {tree : Tree} (h : Factor ts tree) : P ts tree :=
    @Factor.rec (fun ts tree _ => P ts tree) (fun ts tree _ => P ts tree) (fun ts tree _ => P ts tree)
      rules.int rules.float rules.name (fun _ => rules.plus) (fun _ => rules.minus)
      (fun _ => rules.parens) (fun _ h => h) (fun _ hop _ hl hr => rules.binary hl hop hr)
      (fun _ h => h) (fun _ hop _ hl hr => rules.binary hl hop hr) ts tree h
  exact hchain (hchain hfactor) h

/-- What each rule for statements passes on. -/
structure StatementRules (P : Tokens → Tree → Prop) : Prop where
  empty : P [] .empty
  block : ∀ {ts trees line line'}, Separated (.mark .semicolon) P ts trees →
    P (⟨.mark .openBrace, line⟩ :: (ts ++ [⟨.mark .closeBrace, line'⟩])) (.block trees line)
  assignment : ∀ {x ts value line line'}, Expression ts value →
    P (⟨.name x, line⟩ :: ⟨.mark .equals, line'⟩ :: ts) (.assignment x value line)
  declarations : ∀ {ts trees line}, Separated (.mark .comma) Declaration ts trees →
    P (⟨.keyword .var, line⟩ :: ts) (.block trees line)
  procedure : ∀ {x ts body line line'}, P ts body →
    P (⟨.keyword .proc, line⟩ :: ⟨.name x, line'⟩ :: ts) (.procedure x body line)

theorem StatementRules.statement {P : Tokens → Tree → Prop} (rules : StatementRules P)
    {ts : Tokens} {tree : Tree} (h : Statement ts tree) : P ts tree :=
  @Statement.rec (fun ts tree _ => P ts tree)
    (fun ts trees _ => Separated (.mark .semicolon) P ts trees) rules.empty (fun _ => rules.block)
    rules.assignment rules.declarations (fun _ => rules.procedure) (fun _ h => .one h)
    (fun _ _ h hrest => .more h hrest) ts tree h

theorem Separated.ne_nil {separator : Token} {P : Tokens → Tree → Prop} {ts : Tokens}
    {trees : List Tree} (h : Separated separator P ts trees) : trees ≠ [] := by
  cases h <;> exact List.cons_ne_nil _ _

theorem Separated.forall_mem {separator : Token} {P : Tokens → Tree → Prop} {ts : Tokens}
    {trees : List Tree} (h : Separated separator P ts trees) : ∀ tree ∈ trees, ∃ us, P us tree := by
  induction h with
  | one h => exact List.forall_mem_singleton.mpr ⟨_, h⟩
  | more h _ ih => exact List.forall_mem_cons.mpr ⟨⟨_, h⟩, ih⟩

end Primer.Derivation
