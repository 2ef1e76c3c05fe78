import Primer.Fault
import Primer.Text.Blank
import Primer.Text.Digit
import Primer.Text.LeadByte
import Primer.Text.Letter

/-! # Lexemes

A lexeme is a stretch of text that is read as one token. The longest one is taken: a run of digits
goes on over a point into a decimal, and a word goes on as long as letters, decimal digits and
underscores follow. A character that starts no token is a lexeme of its own, and a fault.

Words are read byte by byte, and a reserved word is recognised only if it ends at a byte with which
no word can go on. Before a character such as the no-break space, whose encoding starts like that of
a letter, this is known one byte too late: the word stands, but it is a name.
-/
namespace Primer

open Text

/-- The character may follow the first letter of a word. -/
def isWordChar (c : Char) : Bool :=
  isLetter c || isDecimalDigit c || c == '_'

/-- The encoding of the character starts like that of a character that may stand in a word. -/
def startsLikeWordChar (c : Char) : Bool :=
  startsInClass letterRanges (leadByte c.toNat) ||
    startsInClass decimalDigitRanges (leadByte c.toNat) || c == '_'

/-- What one step of reading finds: a token, the end of the text, or a fault. -/
inductive Reading where
  | token (t : Token) (line : Nat)
  | finish (line : Nat)
  | fault (f : LexicalFault)
deriving DecidableEq

/-- A stretch of text that is read at once, by its form. -/
inductive Lexeme where
  | digits (run : List Char)
  | decimal (whole fraction : List Char)
  | word (chars : List Char)
  /-- A word that is a name even if it is spelled like a reserved one. -/
  | name (chars : List Char)
  | mark (m : Mark)
  | stray (c : Char)
deriving DecidableEq

namespace Lexeme

def spelling : Lexeme → List Char
  | .digits run => run
  | .decimal whole fraction => whole ++ '.' :: fraction
  | .word chars => chars
  | .name chars => chars
  | .mark m => [m.char]
  | .stray c => [c]

/-- The lexeme of a word in front of the rest of the text. -/
def ofWord (chars rest : List Char) : Lexeme :=
  if rest.head?.any startsLikeWordChar then .name chars else .word chars

theorem spelling_ofWord (chars rest : List Char) : (ofWord chars rest).spelling = chars := by
  unfold ofWord
  split <;> rfl

/-- The longest lexeme at the start of the text `c :: cs`, and the text after it. -/
def split (c : Char) (cs : List Char) : Lexeme × List Char :=
  if c.isDigit then
    let whole := c :: cs.takeWhile Char.isDigit
    match cs.dropWhile Char.isDigit with
    | '.' :: rest =>
      (.decimal whole (rest.takeWhile Char.isDigit), rest.dropWhile Char.isDigit)
    | rest => (.digits whole, rest)
  else if isLetter c then
    let rest := cs.dropWhile isWordChar
    (ofWord (c :: cs.takeWhile isWordChar) rest, rest)
  else
    match Mark.ofChar? c with
    | some m => (.mark m, cs)
    | none => (.stray c, cs)

def largestInteger : Nat := 9223372036854775807

/-- What the lexeme is read as at the given place. Integers have a largest value. Decimals are
rounded to the nearest float, and their digits after the point may be missing. -/
def reading (line column : Nat) : Lexeme → Reading
  | .digits run =>
    let n := Nat.ofDigitChars 10 run 0
    if n ≤ largestInteger then .token (.int (Int64.ofNat n)) line
    else .fault (.integerTooLarge (String.ofList run) line)
  | .decimal whole fraction =>
    let n := Nat.ofDigitChars 10 (whole ++ fraction) 0
    .token (.float (Float.ofScientific n true fraction.length)) line
  | .word chars => .token (Token.ofWord (String.ofList chars)) line
  | .name chars => .token (.name (String.ofList chars)) line
  | .mark m => .token (.mark m) line
  | .stray c => .fault (.strayCharacter c line column)

theorem spelling_append_split (c : Char) (cs : List Char) :
    (split c cs).1.spelling ++ (split c cs).2 = c :: cs := by
  unfold split
  split
  · split
    · rename_i rest h
      simp only [spelling, List.append_assoc, List.cons_append, List.takeWhile_append_dropWhile]
      rw [← h, List.takeWhile_append_dropWhile]
    · simp [spelling, List.takeWhile_append_dropWhile]
  · split
    · simp [spelling_ofWord, List.takeWhile_append_dropWhile]
    · split
      · rename_i m h
        simp [spelling, Mark.char_of_ofChar?_eq_some h]
      · simp [spelling]

theorem reading_ne_finish (line column last : Nat) (l : Lexeme) :
    l.reading line column ≠ .finish last := by
  cases l <;> simp only [reading, ne_eq, reduceCtorEq, not_false_eq_true]
  split <;> simp

theorem spelling_split_ne_nil (c : Char) (cs : List Char) : (split c cs).1.spelling ≠ [] := by
  unfold split
  split
  · split <;> simp [spelling]
  · split
    · simp [spelling_ofWord]
    · split <;> simp [spelling]

theorem length_split_lt (c : Char) (cs : List Char) :
    (split c cs).2.length < (c :: cs).length := by
  have h := congrArg List.length (spelling_append_split c cs)
  have hpos := List.length_pos_iff.mpr (spelling_split_ne_nil c cs)
  rw [List.length_append] at h
  omega

end Lexeme

end Primer
