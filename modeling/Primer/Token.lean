import Primer.Value

/-! # Tokens

The words of the language. A token knows how it is named in messages; the line on which it stands
is kept beside it.
-/
namespace Primer

inductive Keyword where
  | main
  | var
  | proc
deriving DecidableEq

def Keyword.spelling : Keyword → String
  | .main => "main"
  | .var => "var"
  | .proc => "proc"

/-- Tokens that are a single punctuation character. -/
inductive Mark where
  | plus
  | minus
  | star
  | slash
  | openParen
  | closeParen
  | openBrace
  | closeBrace
  | equals
  | semicolon
  | colon
  | comma
  | dot
deriving DecidableEq

def Mark.char : Mark → Char
  | .plus => '+'
  | .minus => '-'
  | .star => '*'
  | .slash => '/'
  | .openParen => '('
  | .closeParen => ')'
  | .openBrace => '\x7b'
  | .closeBrace => '\x7d'
  | .equals => '='
  | .semicolon => ';'
  | .colon => ':'
  | .comma => ','
  | .dot => '.'

def Mark.all : List Mark :=
  [.plus, .minus, .star, .slash, .openParen, .closeParen, .openBrace, .closeBrace, .equals,
   .semicolon, .colon, .comma, .dot]

def Mark.ofChar? (c : Char) : Option Mark :=
  Mark.all.find? (·.char == c)

theorem Mark.char_of_ofChar?_eq_some {c : Char} {m : Mark} (h : Mark.ofChar? c = some m) :
    m.char = c := by
  simpa using List.find?_some h

theorem Mark.ofChar?_char (m : Mark) : Mark.ofChar? m.char = some m := by
  cases m <;> rfl

inductive Token where
  | int (n : Int64)
  | float (x : Float)
  | name (s : String)
  | keyword (k : Keyword)
  | type (t : BasicType)
  | mark (m : Mark)
deriving DecidableEq

namespace Token

/-- The token that a word is: a reserved one or a name. -/
def ofWord (s : String) : Token :=
  if s = "main" then .keyword .main
  else if s = "var" then .keyword .var
  else if s = "proc" then .keyword .proc
  else if s = "Int" then .type .int
  else if s = "Float" then .type .float
  else .name s

/-- How messages name the token. -/
def text : Token → String
  | .int n => "integer literal " ++ (Value.int n).text
  | .float x => "float literal " ++ (Value.float x).text
  | .name s => "identifier '" ++ s ++ "'"
  | .keyword k => "'" ++ k.spelling ++ "'"
  | .type t => "'" ++ t.name ++ "'"
  | .mark m => "'" ++ m.char.toString ++ "'"

end Token

structure Located where
  token : Token
  line : Nat
deriving DecidableEq

end Primer
