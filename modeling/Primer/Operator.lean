/-! # Operators

The four binary operators and the two signs that may stand before an operand.
-/
namespace Primer

inductive BinaryOperator where
  | add
  | subtract
  | multiply
  | divide
deriving DecidableEq

def BinaryOperator.onFloats : BinaryOperator → Float → Float → Float
  | .add, x, y => x + y
  | .subtract, x, y => x - y
  | .multiply, x, y => x * y
  | .divide, x, y => x / y

/-- A sign before an operand; signs may be repeated. -/
inductive Sign where
  | plus
  | minus
deriving DecidableEq

def Sign.symbol : Sign → String
  | .plus => "+"
  | .minus => "-"

end Primer
