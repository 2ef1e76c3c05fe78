import Primer.Fault
import Primer.NameMap
import Primer.Tree

/-! # Evaluation

Evaluating a tree reads and changes the values of variables and may give a value. Expressions
give one and statements do not. Evaluation stops at the first fault, and the variables keep the
values that they have got until then.
-/
namespace Primer

abbrev Environment := NameMap Value

/-- A computation on the environment; its changes stay if it fails. -/
abbrev Evaluator := EStateM EvaluationFault Environment

/-- A sign stands before integers only, and the least integer has no negative. -/
def Sign.apply (sign : Sign) (value : Value) (line : Nat) : Except EvaluationFault Value :=
  match sign, value with
  | sign, .float x => .error (.signOnFloat sign x line)
  | .plus, .int n => .ok (.int n)
  | .minus, .int n => if n = Int64.minValue then .error (.overflow line) else .ok (.int (-n))

namespace Evaluator

def read (name : String) (line : Nat) : Evaluator Value := do
  match (← get).get? name with
  | some value => return value
  | none => throw (.unbound name line)

theorem read_eq {name : String} {line : Nat} {env : Environment} :
    read name line env =
      match env.get? name with
      | some value => .ok value env
      | none => .error (.unbound name line) env := by
  change (match env.get? name with
    | some value => (Pure.pure value : Evaluator Value)
    | none => throw (EvaluationFault.unbound name line)) env = _
  cases env.get? name <;> rfl

def write (name : String) (value : Value) : Evaluator Unit :=
  modify (·.insert name value)

/-- The value that evaluating the tree has given; a statement gives none and is refused. -/
def demand (tree : Tree) : Option Value → Evaluator Value
  | some value => return value
  | none => throw (.noValue tree.kind (tree.line?.getD 0))

end Evaluator

open Evaluator

mutual

/-- Evaluates operands from left to right and statements in the order of the text. The type of a
declaration has no effect, and neither has a procedure. -/
def Tree.eval : Tree → Evaluator (Option Value)
  | .literal value _ => return some value
  | .binary left op right _ => do
    let x ← demand left (← left.eval)
    let y ← demand right (← right.eval)
    return some (op.apply x y)
  | .signed sign operand line => do
    let x ← demand operand (← operand.eval)
    return some (← MonadExcept.ofExcept (sign.apply x line))
  | .variable name line => return some (← read name line)
  | .assignment name value _ => do
    write name (← demand value (← value.eval))
    return none
  | .declaration _ _ _ none _ => return none
  | .declaration name _ _ (some init) _ => do
    write name (← demand init (← init.eval))
    return none
  | .procedure .. => return none
  | .block children _ => do
    evalAll children
    return none
  | .empty => return none

def evalAll : List Tree → Evaluator Unit
  | [] => return ()
  | tree :: others => do
    let _ ← tree.eval
    evalAll others

end

def Tree.evalValue (tree : Tree) : Evaluator Value := do
  demand tree (← tree.eval)

end Primer
