import Primer.Decimal.Layout
import Primer.Operator

/-! # Values

The language has two basic types, and a value is a number of one of them: a 64-bit integer or a
64-bit float. Binary operators always compute with floats.
-/
namespace Primer

inductive BasicType where
  | int
  | float
deriving DecidableEq

def BasicType.name : BasicType → String
  | .int => "Int"
  | .float => "Float"

inductive Value where
  | int (n : Int64)
  | float (x : Float)
deriving DecidableEq

namespace Value

def type : Value → BasicType
  | .int _ => .int
  | .float _ => .float

/-- The value as a float; an integer becomes the nearest one. -/
def toFloat : Value → Float
  | .int n => n.toFloat
  | .float x => x

def text : Value → String
  | .int n => n.toInt.repr
  | .float x => floatText x

end Value

/-- Both operands are taken as floats, and so the result is a float also for integers. -/
def BinaryOperator.apply (op : BinaryOperator) (left right : Value) : Value :=
  .float (op.onFloats left.toFloat right.toFloat)

end Primer
