import Primer.Token

/-! # Faults

Everything that can be wrong with a program, by the stage that finds it. A fault is a cause with
its place. What is printed about it is computed here and nowhere else.
-/
namespace Primer

inductive LexicalFault where
  | strayCharacter (c : Char) (line column : Nat)
  | integerTooLarge (digits : String) (line : Nat)
deriving DecidableEq

/-- What could have stood where a token was refused. -/
inductive Expectation where
  | main
  | equals
  | colon
  | closeParen
  | separator
  | typeName
  | variableName
  | procedureName
  | expression
  | endOfInput
deriving DecidableEq

/-- Text that is no program: it has no tokens, or a token is refused. No token found means that the
text ended there. -/
inductive SourceFault where
  | lexical (f : LexicalFault)
  | unexpected (expected : Expectation) (found : Option Token) (line : Nat)
deriving DecidableEq

/-- A name that is not declared as it is used. -/
inductive DeclarationFault where
  | unknownType (name : String) (line : Nat)
  | duplicate (name : String) (line : Nat)
  | undeclared (name : String) (line : Nat)
deriving DecidableEq

/-- A step of the evaluation that cannot be made. -/
inductive EvaluationFault where
  | unbound (name : String) (line : Nat)
  | signOnFloat (sign : Sign) (x : Float) (line : Nat)
  | noValue (kind : String) (line : Nat)
  | overflow (line : Nat)
deriving DecidableEq

inductive Fault where
  | source (f : SourceFault)
  | declaration (f : DeclarationFault)
  | evaluation (f : EvaluationFault)
deriving DecidableEq

def LexicalFault.line : LexicalFault → Nat
  | .strayCharacter _ line _ => line
  | .integerTooLarge _ line => line

def SourceFault.line : SourceFault → Nat
  | .lexical f => f.line
  | .unexpected _ _ line => line

def DeclarationFault.line : DeclarationFault → Nat
  | .unknownType _ line => line
  | .duplicate _ line => line
  | .undeclared _ line => line

def EvaluationFault.line : EvaluationFault → Nat
  | .unbound _ line => line
  | .signOnFloat _ _ line => line
  | .noValue _ line => line
  | .overflow line => line

def Fault.line : Fault → Nat
  | .source f => f.line
  | .declaration f => f.line
  | .evaluation f => f.line

def Expectation.text : Expectation → String
  | .main => (Token.keyword .main).text
  | .equals => (Token.mark .equals).text
  | .colon => (Token.mark .colon).text
  | .closeParen => (Token.mark .closeParen).text
  | .separator => (Token.mark .semicolon).text ++ " or " ++ (Token.mark .closeBrace).text
  | .typeName => "type name " ++ (Token.type .int).text ++ " or " ++ (Token.type .float).text
  | .variableName => "variable name"
  | .procedureName => "procedure name"
  | .expression => "an expression"
  | .endOfInput => "end of input"

/-- How messages name what was found: a token or the end of the text. -/
def foundText : Option Token → String
  | some t => t.text
  | none => Expectation.endOfInput.text

def errorOnLine (line : Nat) : String :=
  "Error on line " ++ line.repr

def LexicalFault.message : LexicalFault → String
  | .strayCharacter c line column =>
    errorOnLine line ++ ", column " ++ column.repr ++ ": Invalid character '" ++ c.toString ++ "'."
  | .integerTooLarge digits line =>
    errorOnLine line ++ ": Integer literal " ++ digits ++ " is too large."

def SourceFault.message : SourceFault → String
  | .lexical f => f.message
  | .unexpected expected found line =>
    errorOnLine line ++ ": Invalid syntax. Expected " ++ expected.text ++ ", found " ++
      foundText found ++ "."

def DeclarationFault.message : DeclarationFault → String
  | .unknownType name line => errorOnLine line ++ ": Unknown type '" ++ name ++ "'."
  | .duplicate name line => errorOnLine line ++ ": Duplicate identifier '" ++ name ++ "' found."
  | .undeclared name line => errorOnLine line ++ ": Identifier '" ++ name ++ "' not found."

def EvaluationFault.message : EvaluationFault → String
  | .unbound name line => errorOnLine line ++ ": Name error: '" ++ name ++ "' has no value."
  | .signOnFloat sign x line =>
    errorOnLine line ++ ": Type mismatch: unary '" ++ sign.symbol ++
      "' requires an Int operand, found Float value " ++ floatText x ++ "."
  | .noValue kind line =>
    errorOnLine line ++ ": Type mismatch: " ++ kind ++ " statement used where a value is required."
  | .overflow line => errorOnLine line ++ ": Integer overflow while trying to compute result."

def Fault.message : Fault → String
  | .source f => f.message
  | .declaration f => f.message
  | .evaluation f => f.message

def Fault.heading : Fault → String
  | .source (.lexical _) => "LexicalError"
  | .source (.unexpected ..) => "SyntaxError"
  | .declaration _ => "SemanticError"
  | .evaluation (.unbound ..) => "NameError"
  | .evaluation (.signOnFloat ..) => "TypeMismatch"
  | .evaluation (.noValue ..) => "TypeMismatch"
  | .evaluation (.overflow _) => "OverflowError"

end Primer
