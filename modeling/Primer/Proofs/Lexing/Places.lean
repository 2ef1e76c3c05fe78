import Primer.Proofs.Lexing.Steps

/-! # Places

Reading goes forward through the lines of a text and never beyond its last one. On which column the
text starts matters on its first line only, and there only for a stray character, the one thing
that is reported with its column.
-/
namespace Primer

def Reading.line : Reading → Nat
  | .token _ line => line
  | .finish line => line
  | .fault f => f.line

theorem Lexeme.line_reading (line column : Nat) (l : Lexeme) :
    (l.reading line column).line = line := by
  cases l with
  | digits run =>
    simp only [reading]
    split <;> rfl
  | _ => rfl

namespace Cursor

def lastLine (c : Cursor) : Nat := c.line + c.rest.count '\n'

theorem line_le_skip (comment : Bool) (line column : Nat) (cs : List Char) :
    line ≤ (skip comment line column cs).line ∧
      (skip comment line column cs).lastLine = line + cs.count '\n' := by
  induction cs generalizing comment line column with
  | nil => exact ⟨Nat.le_refl _, rfl⟩
  | cons c cs ih =>
    unfold skip
    split
    · rename_i hnewline
      obtain ⟨hle, hlast⟩ := ih false (line + 1) 1
      rw [hlast, hnewline, List.count_cons_self]
      omega
    · rename_i hnewline
      have hcount : (c :: cs).count '\n' = cs.count '\n' := List.count_cons_of_ne hnewline
      rw [hcount]
      split
      · exact ih ..
      · split
        · exact ih ..
        · exact ⟨Nat.le_refl _, by rw [lastLine, hcount]⟩

theorem next_within (c : Cursor) :
    c.line ≤ c.next.1.line ∧ c.next.1.line ≤ c.lastLine ∧
      c.line ≤ c.next.2.line ∧ c.next.2.lastLine ≤ c.lastLine := by
  obtain ⟨hle, hlast⟩ : c.line ≤ c.skipTrivia.line ∧ c.skipTrivia.lastLine = c.lastLine :=
    line_le_skip ..
  unfold next
  split
  · rename_i line column hskip
    rw [hskip] at hle hlast
    simp only [lastLine, Reading.line] at hle hlast ⊢
    omega
  · rename_i first others line column hskip
    rw [hskip] at hle hlast
    have hcount : (Lexeme.split first others).2.count '\n' ≤ (first :: others).count '\n' := by
      rw [← Lexeme.spelling_append_split first others, List.count_append]
      omega
    simp only [lastLine, Lexeme.line_reading] at hle hlast ⊢
    omega

end Cursor

namespace TokenStream

/-- The tokens and the ending of a stream stand between two lines. -/
structure Within (s : TokenStream) (first last : Nat) : Prop where
  tokens : ∀ u ∈ s.tokens, first ≤ u.line ∧ u.line ≤ last
  ending : first ≤ s.ending.reading.line ∧ s.ending.reading.line ≤ last

theorem Within.mono {s : TokenStream} {first last first' last' : Nat} (h : s.Within first last)
    (hfirst : first' ≤ first) (hlast : last ≤ last') : s.Within first' last' where
  tokens u hu := by
    have := h.tokens u hu
    omega
  ending := by
    have := h.ending
    omega

theorem within_ofCursor (c : Cursor) : (ofCursor c).Within c.line c.lastLine := by
  induction c using cursor_induction with
  | @token c after t line hnext ih =>
    have hstep := c.next_within
    rw [hnext] at hstep
    obtain ⟨hfirst, hlast, hline, hlastLine⟩ := hstep
    have hrest := ih.mono hline hlastLine
    rw [ofCursor_of_token hnext]
    refine ⟨List.forall_mem_cons.mpr ⟨⟨hfirst, hlast⟩, hrest.tokens⟩, hrest.ending⟩
  | @finish c after line hnext =>
    have hstep := c.next_within
    rw [hnext] at hstep
    rw [ofCursor_of_finish hnext]
    exact ⟨by simp, hstep.1, hstep.2.1⟩
  | @fault c after f hnext =>
    have hstep := c.next_within
    rw [hnext] at hstep
    rw [ofCursor_of_fault hnext]
    exact ⟨by simp, hstep.1, hstep.2.1⟩

theorem within_ofString (source : String) :
    (ofString source).Within 1 (1 + source.toList.count '\n') :=
  within_ofCursor (Cursor.ofString source)

end TokenStream

/-- The column of a place of a text with `k` characters written before its first line. -/
def indentedColumn (k line column : Nat) : Nat :=
  if line = 1 then column + k else column

def LexicalFault.indented (k : Nat) : LexicalFault → LexicalFault
  | .strayCharacter c line column => .strayCharacter c line (indentedColumn k line column)
  | .integerTooLarge digits line => .integerTooLarge digits line

def Reading.indented (k : Nat) : Reading → Reading
  | .fault f => .fault (f.indented k)
  | r => r

def Ending.indented (k : Nat) : Ending → Ending
  | .fault f => .fault (f.indented k)
  | e => e

def TokenStream.indented (k : Nat) (s : TokenStream) : TokenStream :=
  ⟨s.tokens, s.ending.indented k⟩

namespace Cursor

def indented (k : Nat) (c : Cursor) : Cursor :=
  ⟨c.rest, c.line, indentedColumn k c.line c.column⟩

theorem indentedColumn_add (k line column n : Nat) :
    indentedColumn k line column + n = indentedColumn k line (column + n) := by
  unfold indentedColumn
  split <;> omega

theorem skip_indented (k : Nat) (comment : Bool) {line : Nat} (hline : 0 < line) (column : Nat)
    (cs : List Char) :
    skip comment line (indentedColumn k line column) cs = (skip comment line column cs).indented k := by
  induction cs generalizing comment line column with
  | nil => rfl
  | cons c cs ih =>
    have hbreak : indentedColumn k (line + 1) 1 = 1 := if_neg (by omega)
    unfold skip
    split
    · have h := ih false (Nat.succ_pos line) 1
      rwa [hbreak] at h
    · rw [indentedColumn_add]
      split
      · exact ih comment hline (column + 1)
      · split
        · exact ih true hline (column + 1)
        · rfl

theorem reading_indented (k line column : Nat) (l : Lexeme) :
    l.reading line (indentedColumn k line column) = (l.reading line column).indented k := by
  cases l <;> simp only [Lexeme.reading, Reading.indented, LexicalFault.indented]
  split <;> rfl

theorem next_indented (k : Nat) {c : Cursor} (hline : 0 < c.line) :
    (c.indented k).next = (c.next.1.indented k, c.next.2.indented k) := by
  have hskip : (c.indented k).skipTrivia = c.skipTrivia.indented k :=
    skip_indented k false hline c.column c.rest
  unfold next
  rw [hskip]
  rcases c.skipTrivia with ⟨_ | ⟨first, others⟩, line, column⟩
  · rfl
  · simp only [indented, reading_indented, indentedColumn_add]

end Cursor

theorem TokenStream.ofCursor_indented (k : Nat) (c : Cursor) (hline : 0 < c.line) :
    ofCursor (c.indented k) = (ofCursor c).indented k := by
  induction c using cursor_induction with
  | @token c after t line hnext ih =>
    have hafter : 0 < after.line := by
      have hstep := c.next_within
      rw [hnext] at hstep
      exact Nat.lt_of_lt_of_le hline hstep.2.2.1
    have hnext' := Cursor.next_indented k hline
    rw [hnext] at hnext'
    rw [ofCursor_of_token hnext', ofCursor_of_token hnext, ih hafter]
    rfl
  | @finish c after line hnext =>
    have hnext' := Cursor.next_indented k hline
    rw [hnext] at hnext'
    rw [ofCursor_of_finish hnext', ofCursor_of_finish hnext]
    rfl
  | @fault c after f hnext =>
    have hnext' := Cursor.next_indented k hline
    rw [hnext] at hnext'
    rw [ofCursor_of_fault hnext', ofCursor_of_fault hnext]
    rfl

end Primer
