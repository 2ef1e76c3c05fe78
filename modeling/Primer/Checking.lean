import Primer.Fault
import Primer.Symbol
import Primer.Tree

/-! # Checking declarations

Every variable has to be declared once, with a type that is known, before it is used. Checking
walks over the tree in the order of the text and collects the declarations in a symbol table. It
stops at the first fault, and the table keeps what was declared until then. The bodies of
procedures are not looked at.
-/
namespace Primer

/-- A walk that collects symbols; they stay collected if it fails. -/
abbrev Checker := EStateM DeclarationFault SymbolTable

namespace Checker

/-- The symbol of the type that a declaration names. -/
def resolveType (name : String) (line : Nat) : Checker Symbol := do
  match (← get).lookup? name with
  | some (.basicType type) => return .basicType type
  | _ => throw (.unknownType name line)

def declare (name : String) (type : Symbol) (line : Nat) : Checker Unit := do
  match (← get).lookup? name with
  | some _ => throw (.duplicate name line)
  | none => modify (·.insert (.variable name type))

def use (name : String) (line : Nat) : Checker Unit := do
  match (← get).lookup? name with
  | some _ => return ()
  | none => throw (.undeclared name line)

end Checker

open Checker

mutual

/-- Checks the uses and declarations in the tree. A variable is declared before its initializer is
checked, and an assignment uses its target after its value. -/
def Tree.check : Tree → Checker Unit
  | .literal .. => pure ()
  | .binary left _ right _ => do
    left.check
    right.check
  | .signed _ operand _ => operand.check
  | .variable name line => use name line
  | .assignment name value line => do
    value.check
    use name line
  | .declaration name typeName typeLine none line => do
    declare name (← resolveType typeName typeLine) line
  | .declaration name typeName typeLine (some init) line => do
    declare name (← resolveType typeName typeLine) line
    init.check
  | .procedure .. => pure ()
  | .block children _ => checkAll children
  | .empty => pure ()

def checkAll : List Tree → Checker Unit
  | [] => pure ()
  | tree :: others => do
    tree.check
    checkAll others

end

end Primer
