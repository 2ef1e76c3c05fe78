import Primer.Proofs.Grammar.Recognition

/-! # The shape of parsed trees

A tree may put a statement where an expression is wanted. The grammar derives no such tree: what is
read from a text is made of expressions, declarations of basic types and statements, each in its
place.
-/
namespace Primer

def Sign.mark : Sign → Mark
  | .plus => .plus
  | .minus => .minus

inductive Tree.IsExpression : Tree → Prop
  | literal {value : Value} {line : Nat} : IsExpression (.literal value line)
  | binary {left right : Tree} {op : BinaryOperator} {line : Nat} (hleft : IsExpression left)
      (hright : IsExpression right) : IsExpression (.binary left op right line)
  | signed {sign : Sign} {operand : Tree} {line : Nat} (h : IsExpression operand) :
      IsExpression (.signed sign operand line)
  | variable {name : String} {line : Nat} : IsExpression (.variable name line)

/-- A declaration of a basic type, with or without a first value. -/
inductive Tree.IsDeclaration : Tree → Prop
  | mk {name : String} {type : BasicType} {typeLine line : Nat} {init : Option Tree}
      (h : ∀ tree ∈ init, tree.IsExpression) :
      IsDeclaration (.declaration name type.name typeLine init line)

/-- A block holds statements, or it holds declarations. -/
inductive Tree.IsStatement : Tree → Prop
  | empty : IsStatement .empty
  | assignment {name : String} {value : Tree} {line : Nat} (h : value.IsExpression) :
      IsStatement (.assignment name value line)
  | procedure {name : String} {body : Tree} {line : Nat} (h : IsStatement body) :
      IsStatement (.procedure name body line)
  | block {trees : List Tree} {line : Nat} (hne : trees ≠ [])
      (h : ∀ tree ∈ trees, IsStatement tree) : IsStatement (.block trees line)
  | declarations {trees : List Tree} {line : Nat} (hne : trees ≠ [])
      (h : ∀ tree ∈ trees, tree.IsDeclaration) : IsStatement (.block trees line)

namespace Derivation
open Grammar

theorem rules_isExpression : ExpressionRules fun _ tree => tree.IsExpression where
  int := .literal
  float := .literal
  name := .variable
  plus := .signed
  minus := .signed
  parens h := h
  binary hleft _ hright := .binary hleft hright

theorem Declaration.isDeclaration {ts : Tokens} {tree : Tree} (h : Declaration ts tree) :
    tree.IsDeclaration := by
  obtain ⟨hinit⟩ := h
  refine .mk ?_
  cases hinit with
  | missing => exact fun _ h => nomatch h
  | given h =>
    rintro _ ⟨⟩
    exact rules_isExpression.expression h

theorem rules_isStatement : StatementRules fun _ tree => tree.IsStatement where
  empty := .empty
  block h := .block h.ne_nil fun tree htree => (h.forall_mem tree htree).elim fun _ h => h
  assignment h := .assignment (rules_isExpression.expression h)
  declarations h := by
    refine .declarations h.ne_nil fun tree htree => ?_
    obtain ⟨us, hus⟩ := h.forall_mem tree htree
    exact hus.isDeclaration
  procedure h := .procedure h

theorem Program.isStatement {ts : Tokens} {tree : Tree} (h : Program ts tree) :
    tree.IsStatement := by
  obtain ⟨hstatement⟩ := h
  exact rules_isStatement.statement hstatement

end Derivation

theorem Program.isStatement_of_parse {source : String} {tree : Tree}
    (h : Program.parse source = .ok tree) : tree.IsStatement := by
  obtain ⟨l, -, hprogram⟩ := Program.parse_eq_ok_iff.mp h
  exact hprogram.isStatement

theorem Expression.isExpression_of_parse {source : String} {tree : Tree}
    (h : Expression.parse source = .ok tree) : tree.IsExpression := by
  obtain ⟨l, -, hexpression⟩ := Expression.parse_eq_ok_iff.mp h
  exact Derivation.rules_isExpression.expression hexpression

end Primer
