import Primer.Checking
import Primer.Evaluation
import Primer.Grammar.Statement

/-! # Programs

What can be done with the text of a program or of an expression.
-/
namespace Primer

/-- What a program leaves behind: its own value, if it has one, and the values of its variables. -/
structure Outcome where
  result : Option Value
  environment : Environment

/-- The symbols of a tree that declares its variables properly. -/
def Tree.symbols (tree : Tree) : Except Fault SymbolTable :=
  match tree.check.run .initial with
  | .ok _ table => .ok table
  | .error f _ => .error (.declaration f)

/-- The outcome of a tree that starts without variables. -/
def Tree.outcome (tree : Tree) : Except Fault Outcome :=
  match tree.eval.run .empty with
  | .ok result environment => .ok ⟨result, environment⟩
  | .error f _ => .error (.evaluation f)

namespace Program

def parse (source : String) : Except Fault Tree :=
  (TokenStream.ofString source).program.mapError .source

def check (source : String) : Except Fault SymbolTable := do
  (← parse source).symbols

def interpret (source : String) : Except Fault Outcome := do
  (← parse source).outcome

def run (source : String) : Except Fault Outcome := do
  let tree ← parse source
  let _ ← tree.symbols
  tree.outcome

end Program

namespace Expression

def parse (source : String) : Except Fault Tree :=
  (TokenStream.ofString source).expression.mapError .source

/-- The value of an expression without variables. -/
def evaluate (source : String) : Except Fault Value := do
  match (← parse source).evalValue.run .empty with
  | .ok value _ => .ok value
  | .error f _ => .error (.evaluation f)

end Expression

end Primer
