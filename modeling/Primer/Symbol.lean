import Primer.NameMap
import Primer.Value

/-! # Symbols

A symbol is what a name was declared as. A symbol table starts with the basic types and holds one
symbol for each name, the one inserted last.
-/
namespace Primer

inductive Symbol where
  | basicType (name : String)
  | variable (name : String) (type : Symbol)
deriving DecidableEq

namespace Symbol

def name : Symbol → String
  | .basicType name => name
  | .variable name _ => name

def isType : Symbol → Bool
  | .basicType _ => true
  | .variable .. => false

/-- The symbol of the type that a variable was declared with. -/
def type? : Symbol → Option Symbol
  | .basicType _ => none
  | .variable _ type => some type

def text : Symbol → String
  | .basicType name => "BuiltinTypeSymbol(name='" ++ name ++ "')"
  | .variable name type => "VarSymbol(name='" ++ name ++ "', type='" ++ type.name ++ "')"

end Symbol

structure SymbolTable where
  byName : NameMap Symbol

namespace SymbolTable

def insert (t : SymbolTable) (s : Symbol) : SymbolTable :=
  ⟨t.byName.insert s.name s⟩

def initial : SymbolTable :=
  (SymbolTable.mk .empty).insert (.basicType BasicType.int.name)
    |>.insert (.basicType BasicType.float.name)

def lookup? (t : SymbolTable) (name : String) : Option Symbol :=
  t.byName.get? name

def toList (t : SymbolTable) : List Symbol :=
  t.byName.entries.map (·.2)

def size (t : SymbolTable) : Nat := t.byName.size

theorem lookup?_insert (t : SymbolTable) (s : Symbol) (name : String) :
    (t.insert s).lookup? name = if name = s.name then some s else t.lookup? name :=
  NameMap.get?_insert ..

def rule : String := "--------------------"

/-- The table as it is printed: a title, one row for each name, and rules around them. -/
def text (t : SymbolTable) : String :=
  let rows := t.byName.entries.map fun (name, s) => " * " ++ name ++ " = " ++ s.text ++ "\n"
  "SymbolTable contents\n" ++ rule ++ "\n" ++ String.join rows ++ rule

end SymbolTable

end Primer
