import Primer.TokenStream
import Primer.Tree

/-! # Reading expressions

    expression = product (("+" | "-") product)*
    product    = factor (("*" | "/") factor)*
    factor     = ("+" | "-") factor | integer | decimal | name | "(" expression ")"

The binary operators group to the left, and parentheses leave no trace in the tree. Each reader
looks at the first token only and hands back the tokens that it has not used, with a bound on their
number: this is why the reading ends.
-/
namespace Primer.Grammar

abbrev Tokens := List Located

abbrev Fewer (ts : Tokens) := { rest : Tokens // rest.length < ts.length }

abbrev NoMore (ts : Tokens) := { rest : Tokens // rest.length ≤ ts.length }

def Fewer.tail {t : Located} {rest : Tokens} : Fewer (t :: rest) :=
  ⟨rest, Nat.lt_succ_self _⟩

def Fewer.cons {t : Located} {rest : Tokens} (r : Fewer rest) : Fewer (t :: rest) :=
  ⟨r.val, Nat.lt_succ_of_lt r.property⟩

def Fewer.noMore {ts : Tokens} (r : Fewer ts) : NoMore ts :=
  ⟨r.val, Nat.le_of_lt r.property⟩

def NoMore.cons {t : Located} {rest : Tokens} (r : NoMore rest) : Fewer (t :: rest) :=
  ⟨r.val, Nat.lt_succ_of_le r.property⟩

def Fewer.trans {ts : Tokens} (r : Fewer ts) (r' : Fewer r.val) : Fewer ts :=
  ⟨r'.val, Nat.lt_trans r'.property r.property⟩

/-- The fault of a reader that wants something else than the first of the tokens that are left. If
none is left, it has come to the end of the text or to the fault that ends the tokens. -/
def unexpected (ending : Ending) (ts : Tokens) (expected : Expectation) : SourceFault :=
  match ts, ending with
  | ⟨t, line⟩ :: _, _ => .unexpected expected (some t) line
  | [], .finish line => .unexpected expected none line
  | [], .fault f => .lexical f

def closeParen (ending : Ending) (ts : Tokens) : Except SourceFault (Fewer ts) :=
  match ts with
  | ⟨.mark .closeParen, _⟩ :: _ => .ok .tail
  | ts => .error (unexpected ending ts .closeParen)

/-- The two levels of binary operators; a product is an operand of a sum. -/
inductive Level where
  | sum
  | product
deriving DecidableEq

def Level.operator? : Level → Token → Option BinaryOperator
  | .sum, .mark .plus => some .add
  | .sum, .mark .minus => some .subtract
  | .product, .mark .star => some .multiply
  | .product, .mark .slash => some .divide
  | _, _ => none

/-- Orders the readers that start at the same token: those of a sum call those of a product. -/
def Level.depth : Level → Nat
  | .product => 0
  | .sum => 2

theorem Level.depth_le (level : Level) : level.depth ≤ 2 := by
  cases level <;> decide

mutual

/-- Reads a signed operand, a literal, a variable or a parenthesised expression. -/
def factor (ending : Ending) (ts : Tokens) : Except SourceFault (Tree × Fewer ts) :=
  match ts with
  | ⟨.int n, line⟩ :: _ => .ok (.literal (.int n) line, .tail)
  | ⟨.float x, line⟩ :: _ => .ok (.literal (.float x) line, .tail)
  | ⟨.name x, line⟩ :: _ => .ok (.variable x line, .tail)
  | ⟨.mark .plus, line⟩ :: rest => do
    let (tree, after) ← factor ending rest
    .ok (.signed .plus tree line, after.cons)
  | ⟨.mark .minus, line⟩ :: rest => do
    let (tree, after) ← factor ending rest
    .ok (.signed .minus tree line, after.cons)
  | ⟨.mark .openParen, _⟩ :: rest => do
    let (tree, after) ← operation ending .sum rest
    let last ← closeParen ending after.val
    .ok (tree, (after.trans last).cons)
  | ts => .error (unexpected ending ts .expression)
termination_by 5 * ts.length
decreasing_by all_goals simp only [List.length_cons, Level.depth]; omega

/-- Reads an operand of the level: a product for a sum, and a factor for a product. -/
def operand (ending : Ending) (level : Level) (ts : Tokens) :
    Except SourceFault (Tree × Fewer ts) :=
  match level with
  | .product => factor ending ts
  | .sum => operation ending .product ts
termination_by 5 * ts.length + level.depth + 1
decreasing_by all_goals simp [Level.depth]

/-- Reads operands with the operators of the level between them. -/
def operation (ending : Ending) (level : Level) (ts : Tokens) :
    Except SourceFault (Tree × Fewer ts) := do
  let (left, ⟨after, h⟩) ← operand ending level ts
  let (tree, ⟨last, h'⟩) ← operationTail ending level left after
  .ok (tree, ⟨last, Nat.lt_of_le_of_lt h' h⟩)
termination_by 5 * ts.length + level.depth + 2

/-- Goes on from the operand on the left as long as an operator of the level follows. -/
def operationTail (ending : Ending) (level : Level) (left : Tree) (ts : Tokens) :
    Except SourceFault (Tree × NoMore ts) :=
  match ts with
  | [] => .ok (left, ⟨[], Nat.le_refl _⟩)
  | ⟨t, line⟩ :: rest =>
    match level.operator? t with
    | none => .ok (left, ⟨⟨t, line⟩ :: rest, Nat.le_refl _⟩)
    | some op => do
      let (right, ⟨after, h⟩) ← operand ending level rest
      let (tree, ⟨last, h'⟩) ← operationTail ending level (.binary left op right line) after
      .ok (tree, ⟨last, Nat.le_succ_of_le (Nat.le_of_lt (Nat.lt_of_le_of_lt h' h))⟩)
termination_by 5 * ts.length
decreasing_by
  all_goals
    have := level.depth_le
    simp only [List.length_cons]
    omega

end

def expression (ending : Ending) (ts : Tokens) : Except SourceFault (Tree × Fewer ts) :=
  operation ending .sum ts

/-- Nothing may follow what was read. -/
def finish (ending : Ending) (ts : Tokens) (tree : Tree) : Except SourceFault Tree :=
  match ts, ending with
  | [], .finish _ => .ok tree
  | ts, ending => .error (unexpected ending ts .endOfInput)

end Primer.Grammar

namespace Primer

def TokenStream.expression (s : TokenStream) : Except SourceFault Tree := do
  let (tree, ⟨rest, _⟩) ← Grammar.expression s.ending s.tokens
  Grammar.finish s.ending rest tree

end Primer
