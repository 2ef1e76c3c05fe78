import Primer.Lexeme

/-! # Reading tokens one by one

A cursor is the text that is still to be read and the place where it starts. Reading skips blanks
and comments and takes one lexeme. A fault does not stop the cursor: it has passed over the lexeme
that caused it, and reading can go on behind it.
-/
namespace Primer

structure Cursor where
  rest : List Char
  line : Nat
  column : Nat
deriving DecidableEq

namespace Cursor

def ofString (source : String) : Cursor := ⟨source.toList, 1, 1⟩

/-- Skips blanks and comments. A comment runs from `#` to the end of its line, and only a line
break starts a new line. -/
def skip (comment : Bool) (line column : Nat) : List Char → Cursor
  | [] => ⟨[], line, column⟩
  | c :: cs =>
    if c = '\n' then skip false (line + 1) 1 cs
    else if comment || Text.isBlank c then skip comment line (column + 1) cs
    else if c = '#' then skip true line (column + 1) cs
    else ⟨c :: cs, line, column⟩

/-- The cursor at the next character that is neither blank nor in a comment. -/
def skipTrivia (c : Cursor) : Cursor := skip false c.line c.column c.rest

/-- Reads the next token and moves behind it. -/
def next (c : Cursor) : Reading × Cursor :=
  match c.skipTrivia with
  | ⟨[], line, column⟩ => (.finish line, ⟨[], line, column⟩)
  | ⟨first :: others, line, column⟩ =>
    let (lexeme, rest) := Lexeme.split first others
    (lexeme.reading line column, ⟨rest, line, column + lexeme.spelling.length⟩)

def readings : Nat → Cursor → List Reading
  | 0, _ => []
  | n + 1, c => c.next.1 :: readings n c.next.2

theorem length_skip_le (comment : Bool) (line column : Nat) (cs : List Char) :
    (skip comment line column cs).rest.length ≤ cs.length := by
  induction cs generalizing comment line column with
  | nil => simp [skip]
  | cons c cs ih =>
    unfold skip
    repeat' split
    all_goals first | exact Nat.le_succ_of_le (ih ..) | exact Nat.le_refl _

theorem length_next_lt {c : Cursor} (h : ∀ line, c.next.1 ≠ .finish line) :
    c.next.2.rest.length < c.rest.length := by
  have hskip : c.skipTrivia.rest.length ≤ c.rest.length := length_skip_le ..
  unfold next at h ⊢
  split at h <;> rename_i hs
  · exact absurd rfl (h _)
  · rw [hs] at hskip
    exact Nat.lt_of_lt_of_le (Lexeme.length_split_lt ..) hskip

end Cursor

end Primer
