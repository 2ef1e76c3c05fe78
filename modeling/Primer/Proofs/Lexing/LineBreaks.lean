import Primer.Proofs.Lexing.Spelling
import Primer.Proofs.Lines.Renumbering

/-! # Texts joined at a line break

No lexeme and no comment reaches across a line break, and reading goes on behind a fault. So a text
that is joined from two at a line break is read as the first one up to its end, and then as the
second one, which stands on later lines but on the same columns.
-/
namespace Primer

def Reading.mapLine (f : Nat → Nat) : Reading → Reading
  | .token t line => .token t (f line)
  | .finish line => .finish (f line)
  | .fault g => .fault (g.mapLine f)

theorem Reading.mapLine_eq_fault_iff {f : Nat → Nat} {r : Reading} :
    (∃ g, r.mapLine f = .fault g) ↔ ∃ g, r = .fault g := by
  cases r <;> simp [mapLine]

namespace Lexeme

theorem span_followedBy {p : Char → Bool} (hp : p '\n' = false) (cs more : List Char) :
    (cs ++ '\n' :: more).takeWhile p = cs.takeWhile p ∧
      (cs ++ '\n' :: more).dropWhile p = cs.dropWhile p ++ '\n' :: more := by
  induction cs with
  | nil => simp [hp]
  | cons c cs ih => by_cases hc : p c = true <;> simp [hc, ih]

theorem ofWord_followedBy (chars rest more : List Char) :
    ofWord chars (rest ++ '\n' :: more) = ofWord chars rest := by
  cases rest with
  | nil =>
    have hbreak : startsLikeWordChar '\n' = false := by decide +kernel
    simp [ofWord, hbreak]
  | cons c rest => rfl

theorem split_followedBy (c : Char) (cs more : List Char) :
    split c (cs ++ '\n' :: more) = ((split c cs).1, (split c cs).2 ++ '\n' :: more) := by
  obtain ⟨htake, hdrop⟩ := @span_followedBy Char.isDigit (by decide) cs more
  obtain ⟨htakeWord, hdropWord⟩ := @span_followedBy isWordChar (by decide +kernel) cs more
  unfold split
  by_cases hdigit : c.isDigit = true
  · rw [if_pos hdigit, if_pos hdigit, htake, hdrop]
    cases cs.dropWhile Char.isDigit with
    | nil => rfl
    | cons d rest =>
      by_cases hpoint : d = '.'
      · obtain ⟨htakeRest, hdropRest⟩ := @span_followedBy Char.isDigit (by decide) rest more
        subst hpoint
        simp only [List.cons_append, htakeRest, hdropRest]
      · simp [hpoint]
  · rw [if_neg hdigit, if_neg hdigit]
    by_cases hletter : Text.isLetter c = true
    · rw [if_pos hletter, if_pos hletter]
      simp only [htakeWord, hdropWord, ofWord_followedBy]
    · rw [if_neg hletter, if_neg hletter]
      cases Mark.ofChar? c <;> rfl

end Lexeme

namespace Cursor
open Lexing

/-- The cursor in a text that goes on in a new line. -/
def followedBy (more : List Char) (c : Cursor) : Cursor :=
  ⟨c.rest ++ '\n' :: more, c.line, c.column⟩

theorem skip_followedBy (more : List Char) (comment : Bool) (line column : Nat) (cs : List Char) :
    skip comment line column (cs ++ '\n' :: more) =
      if (skip comment line column cs).rest = [] then
        skip false ((skip comment line column cs).line + 1) 1 more
      else (skip comment line column cs).followedBy more := by
  induction cs generalizing comment line column with
  | nil => simp [skip]
  | cons c cs ih =>
    rw [List.cons_append]
    by_cases hbreak : c = '\n'
    · simp only [skip, if_pos hbreak, ih]
    · by_cases hpass : (comment || Text.isBlank c) = true
      · simp only [skip, if_neg hbreak, if_pos hpass, ih]
      · by_cases hhash : c = '#'
        · simp only [skip, if_neg hbreak, if_neg hpass, if_pos hhash, ih]
        · simp [skip, hbreak, hpass, hhash, followedBy]

theorem skipTrivia_followedBy_cons (more : List Char) {c : Cursor} {first : Char}
    {others : List Char} {line column : Nat} (h : c.skipTrivia = ⟨first :: others, line, column⟩) :
    (c.followedBy more).skipTrivia = ⟨first :: (others ++ '\n' :: more), line, column⟩ := by
  have hskip : skip false c.line c.column c.rest = ⟨first :: others, line, column⟩ := h
  rw [skipTrivia, followedBy, skip_followedBy, hskip, if_neg (List.cons_ne_nil first others)]
  rfl

theorem skipTrivia_followedBy_nil (more : List Char) {c : Cursor} {line column : Nat}
    (h : c.skipTrivia = ⟨[], line, column⟩) :
    (c.followedBy more).skipTrivia = skipTrivia ⟨more, line + 1, 1⟩ := by
  have hskip : skip false c.line c.column c.rest = ⟨[], line, column⟩ := h
  rw [skipTrivia, followedBy, skip_followedBy, hskip, if_pos rfl, skipTrivia]

theorem next_followedBy (more : List Char) {c : Cursor} (h : ∀ line, c.next.1 ≠ .finish line) :
    (c.followedBy more).next = (c.next.1, c.next.2.followedBy more) := by
  rcases hc : c.skipTrivia with ⟨_ | ⟨first, others⟩, line, column⟩
  · rw [next_of_skipTrivia_nil hc] at h
    exact absurd rfl (h line)
  · rw [next_of_skipTrivia_cons (skipTrivia_followedBy_cons more hc), next_of_skipTrivia_cons hc,
      Lexeme.split_followedBy]
    rfl

theorem next_followedBy_of_finish (more : List Char) {c : Cursor} {line : Nat}
    (h : c.next.1 = .finish line) : (c.followedBy more).next = next ⟨more, line + 1, 1⟩ := by
  rcases hc : c.skipTrivia with ⟨_ | ⟨first, others⟩, line', column⟩
  · rw [next_of_skipTrivia_nil hc] at h
    cases h
    exact next_congr (skipTrivia_followedBy_nil more hc)
  · rw [next_of_skipTrivia_cons hc] at h
    exact absurd h (Lexeme.reading_ne_finish _ _ _ _)

theorem after_followedBy (more : List Char) {c : Cursor} {k : Nat}
    (h : ∀ n < k, ∀ line, (c.after n).next.1 ≠ .finish line) {n : Nat} (hn : n ≤ k) :
    (c.followedBy more).after n = (c.after n).followedBy more := by
  induction n with
  | zero => rfl
  | succ n ih => rw [after, ih (by omega), next_followedBy more (h n hn), after]

theorem exists_first_finish (c : Cursor) :
    ∃ k line, (∀ n < k, ∀ early, (c.after n).next.1 ≠ .finish early) ∧
      (c.after k).next.1 = .finish line := by
  induction hlength : c.rest.length using Nat.strongRecOn generalizing c with
  | ind length ih =>
  by_cases hfinish : ∃ line, c.next.1 = .finish line
  · obtain ⟨line, hline⟩ := hfinish
    exact ⟨0, line, fun n hn => absurd hn (Nat.not_lt_zero n), hline⟩
  · have hnot := not_exists.mp hfinish
    obtain ⟨k, line, hbefore, hk⟩ := ih _ (hlength ▸ length_next_lt hnot) c.next.2 rfl
    refine ⟨k + 1, line, ?_, by rw [← c.after_next, hk]⟩
    intro n hn
    cases n with
    | zero => exact hnot
    | succ n =>
      rw [← c.after_next]
      exact hbefore n (by omega)

theorem next_after_congr {c d : Cursor} (h : c.next = d.next) (n : Nat) :
    (c.after n).next = (d.after n).next := by
  induction n with
  | zero => exact h
  | succ n ih => rw [after, after, ih]

def lowered (k : Nat) (c : Cursor) : Cursor := ⟨c.rest, c.line + k, c.column⟩

theorem skip_lowered (k : Nat) (comment : Bool) (line column : Nat) (cs : List Char) :
    skip comment (line + k) column cs = (skip comment line column cs).lowered k := by
  induction cs generalizing comment line column with
  | nil => rfl
  | cons c cs ih =>
    unfold skip
    split
    · rw [Nat.add_right_comm]
      exact ih false (line + 1) 1
    · split
      · exact ih comment line (column + 1)
      · split
        · exact ih true line (column + 1)
        · rfl

theorem reading_lowered (k line column : Nat) (l : Lexeme) :
    l.reading (line + k) column = (l.reading line column).mapLine (· + k) := by
  cases l <;> simp only [Lexeme.reading, Reading.mapLine, LexicalFault.mapLine]
  split <;> rfl

theorem next_lowered (k : Nat) (c : Cursor) :
    (c.lowered k).next = (c.next.1.mapLine (· + k), c.next.2.lowered k) := by
  have hskip : (c.lowered k).skipTrivia = c.skipTrivia.lowered k :=
    skip_lowered k false c.line c.column c.rest
  rcases hc : c.skipTrivia with ⟨_ | ⟨first, others⟩, line, column⟩
  · rw [hc] at hskip
    rw [next_of_skipTrivia_nil hskip, next_of_skipTrivia_nil hc]
    rfl
  · rw [hc] at hskip
    rw [next_of_skipTrivia_cons hskip, next_of_skipTrivia_cons hc, reading_lowered]
    rfl

theorem after_lowered (k : Nat) (c : Cursor) (n : Nat) :
    (c.lowered k).after n = (c.after n).lowered k := by
  induction n with
  | zero => rfl
  | succ n ih => rw [after, ih, next_lowered, after]

end Cursor

namespace TokenStream

theorem ending_eq_fault_iff (c : Cursor) :
    (∃ f, (ofCursor c).ending = .fault f) ↔ ∃ n f, (c.after n).next.1 = .fault f := by
  induction c using cursor_induction with
  | @token c after t line hnext ih =>
    have hafter : c.next.2 = after := by rw [hnext]
    rw [ofCursor_of_token hnext, ih, ← hafter]
    constructor
    · rintro ⟨n, f, hn⟩
      exact ⟨n + 1, f, by rw [← c.after_next, hn]⟩
    · rintro ⟨n, f, hn⟩
      cases n with
      | zero =>
        rw [Cursor.after, hnext] at hn
        cases hn
      | succ n => exact ⟨n, f, by rw [c.after_next, hn]⟩
  | @finish c after line hnext =>
    rw [ofCursor_of_finish hnext]
    refine iff_of_false ?_ ?_
    · rintro ⟨f, hf⟩
      cases hf
    · rintro ⟨n, f, hn⟩
      rw [Lexing.after_finish (congrArg Prod.fst hnext)] at hn
      cases hn
  | @fault c after f hnext =>
    rw [ofCursor_of_fault hnext]
    exact iff_of_true ⟨f, rfl⟩ ⟨0, f, congrArg Prod.fst hnext⟩

theorem toTokenList_isOk_iff {s : TokenStream} :
    (∃ l, s.toTokenList = .ok l) ↔ ¬ ∃ f, s.ending = .fault f := by
  unfold toTokenList
  cases s.ending <;> simp

end TokenStream

namespace Lexing

theorem toTokenList_isOk_iff_reading {source : String} :
    (∃ l, (TokenStream.ofString source).toTokenList = .ok l) ↔
      ∀ n, ¬ ∃ f, reading source n = .fault f := by
  rw [TokenStream.toTokenList_isOk_iff, TokenStream.ofString, TokenStream.ending_eq_fault_iff,
    not_exists]
  rfl

theorem Step.line_of_finish {text : List Char} {p p' line : Nat}
    (h : Step text p (.finish line) p') : line = lineAfter text := by
  generalize hr : Reading.finish line = r at h
  cases h with
  | finish =>
    cases hr
    rw [lineAt, List.take_length]
  | stray => cases hr
  | token _ _ hread => cases hread <;> cases hr

theorem line_of_finish {source : String} {n line : Nat} (h : reading source n = .finish line) :
    line = lineAfter source.toList := by
  have hlaw := stepLaw_position source n
  rw [h] at hlaw
  have hnot : ¬ ∃ blanks word, LateAt source.toList (position source n) blanks word := by
    rintro ⟨blanks, word, hlate⟩
    cases (hlaw.late blanks word hlate).1
  exact (hlaw.step_iff.mpr hnot).line_of_finish

/-- The steps of reading two texts joined at a line break. The first `k` of them read the first text,
which ends there, and the others the second one, further down. -/
structure ReadsJoined (a b : String) (k : Nat) : Prop where
  not_finish : ∀ n < k, ∀ line, reading a n ≠ .finish line
  finish : ∃ line, reading a k = .finish line
  first : ∀ n < k, reading (a ++ "\n" ++ b) n = reading a n
  second : ∀ n, reading (a ++ "\n" ++ b) (k + n) =
    (reading b n).mapLine (· + (1 + a.toList.count '\n'))

theorem exists_readsJoined (a b : String) : ∃ k, ReadsJoined a b k := by
  obtain ⟨k, line, hbefore, hk⟩ := (Cursor.ofString a).exists_first_finish
  have hjoined : Cursor.ofString (a ++ "\n" ++ b) = (Cursor.ofString a).followedBy b.toList := by
    simp [Cursor.ofString, Cursor.followedBy, String.toList_append]
  have hline := line_of_finish hk
  refine ⟨k, hbefore, ⟨line, hk⟩, ?_, ?_⟩
  · intro n hn
    rw [reading, hjoined, Cursor.after_followedBy _ hbefore (Nat.le_of_lt hn),
      Cursor.next_followedBy _ (hbefore n hn), reading]
  · intro n
    have hstart : (⟨b.toList, line + 1, 1⟩ : Cursor) = (Cursor.ofString b).lowered line := by
      rw [Cursor.ofString, Cursor.lowered, Nat.add_comm line]
    rw [reading, hjoined, Cursor.after_add, Cursor.after_followedBy _ hbefore (Nat.le_refl k),
      Cursor.next_after_congr (Cursor.next_followedBy_of_finish _ hk), hstart,
      Cursor.after_lowered, Cursor.next_lowered, hline, lineAfter, reading]

theorem ReadsJoined.exists_fault_iff {a b : String} {k : Nat} (h : ReadsJoined a b k) :
    (∃ n f, reading (a ++ "\n" ++ b) n = .fault f) ↔
      (∃ n f, reading a n = .fault f) ∨ ∃ n f, reading b n = .fault f := by
  constructor
  · rintro ⟨n, hn⟩
    by_cases hlt : n < k
    · rw [h.first n hlt] at hn
      exact .inl ⟨n, hn⟩
    · obtain ⟨m, rfl⟩ := Nat.exists_eq_add_of_le (Nat.le_of_not_lt hlt)
      rw [h.second m, Reading.mapLine_eq_fault_iff] at hn
      exact .inr ⟨m, hn⟩
  · rintro (⟨n, hn⟩ | ⟨n, hn⟩)
    · obtain ⟨line, hfinish⟩ := h.finish
      have hlt : n < k := by
        refine Nat.lt_of_not_le fun hle => ?_
        obtain ⟨f, hf⟩ := hn
        rw [reading_finish_of_le hfinish hle] at hf
        cases hf
      exact ⟨n, by rwa [h.first n hlt]⟩
    · exact ⟨k + n, by rwa [h.second n, Reading.mapLine_eq_fault_iff]⟩

/-- Reading two texts joined at a line break is reading the first one up to its end and then the
second one on later lines, faults included. There is a list of all tokens exactly if there is one
for each of the texts. -/
theorem reading_append_newline (a b : String) :
    (∃ k, ReadsJoined a b k) ∧
    ((∃ l, (TokenStream.ofString (a ++ "\n" ++ b)).toTokenList = .ok l) ↔
      (∃ l, (TokenStream.ofString a).toTokenList = .ok l) ∧
        ∃ l, (TokenStream.ofString b).toTokenList = .ok l) := by
  obtain ⟨k, hk⟩ := exists_readsJoined a b
  refine ⟨⟨k, hk⟩, ?_⟩
  have hfaults := hk.exists_fault_iff
  simp only [toTokenList_isOk_iff_reading, ← not_exists, hfaults, not_or]

end Lexing

end Primer
