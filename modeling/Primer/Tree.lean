import Primer.Value

/-! # Trees

One type holds expressions and statements alike, each with the line that it is reported on. A tree
need not come from a text: a statement may stand where an expression is wanted, and what that
means is up to the evaluation.
-/
namespace Primer

inductive Tree where
  | literal (value : Value) (line : Nat)
  | binary (left : Tree) (op : BinaryOperator) (right : Tree) (line : Nat)
  | signed (sign : Sign) (operand : Tree) (line : Nat)
  | variable (name : String) (line : Nat)
  | assignment (name : String) (value : Tree) (line : Nat)
  | declaration (name typeName : String) (typeLine : Nat) (init : Option Tree) (line : Nat)
  | procedure (name : String) (body : Tree) (line : Nat)
  | block (children : List Tree) (line : Nat)
  | empty

namespace Tree

/-- How messages name this kind of tree. -/
def kind : Tree → String
  | .literal .. => "Literal"
  | .binary .. => "BinaryOp"
  | .signed .. => "UnaryOp"
  | .variable .. => "Variable"
  | .assignment .. => "Assignment"
  | .declaration .. => "VariableDecl"
  | .procedure .. => "ProcedureDecl"
  | .block .. => "Compound"
  | .empty => "NoOp"

/-- The line of the tree; the empty statement has none. -/
def line? : Tree → Option Nat
  | .literal _ line => some line
  | .binary _ _ _ line => some line
  | .signed _ _ line => some line
  | .variable _ line => some line
  | .assignment _ _ line => some line
  | .declaration _ _ _ _ line => some line
  | .procedure _ _ line => some line
  | .block _ line => some line
  | .empty => none

end Tree

end Primer
