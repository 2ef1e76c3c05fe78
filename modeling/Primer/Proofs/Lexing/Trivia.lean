import Primer.Cursor

/-! # Blanks and comments

What is skipped before a token is the longest text of blanks and comments. Skipping also keeps count
of the place: the line is one more than the line breaks passed, and the column is one more than the
characters since the last of them.
-/
namespace Primer.Lexing
open Text

/-- The longest word of a language at the start of a text. -/
structure Longest (P : List Char → Prop) (text word : List Char) : Prop where
  starts : word <+: text
  holds : P word
  le : ∀ other, other <+: text → P other → other.length ≤ word.length

namespace Longest
variable {P Q : List Char → Prop} {text word : List Char}

theorem unique {word' : List Char} (h : Longest P text word) (h' : Longest P text word') :
    word = word' := by
  have hle : word.length ≤ word'.length := h'.le word h.starts h.holds
  have hge : word'.length ≤ word.length := h.le word' h'.starts h'.holds
  exact (List.prefix_of_prefix_length_le h.starts h'.starts hle).eq_of_length
    (Nat.le_antisymm hle hge)

theorem nil_of_forall_not (hnil : P []) (h : ∀ c u, c :: u <+: text → ¬ P (c :: u)) :
    Longest P text [] where
  starts := List.nil_prefix
  holds := hnil
  le other hother hP := by
    cases other with
    | nil => exact Nat.le_refl _
    | cons c u => exact absurd hP (h c u hother)

theorem append {start : List Char} (hPQ : ∀ u, P (start ++ u) ↔ Q u) (h : Longest Q text word) :
    Longest P (start ++ text) (start ++ word) where
  starts := (List.prefix_append_right_inj start).mpr h.starts
  holds := (hPQ word).mpr h.holds
  le other hother hP := by
    rw [List.length_append]
    by_cases hlen : other.length ≤ start.length
    · omega
    · have hstart : start <+: other :=
        List.prefix_of_prefix_length_le (List.prefix_append start text) hother (by omega)
      obtain ⟨u, rfl⟩ := hstart
      have hu : u <+: text := (List.prefix_append_right_inj start).mp hother
      have hle : u.length ≤ word.length := h.le u hu ((hPQ u).mp hP)
      rw [List.length_append]
      omega

theorem cons {c : Char} (hPQ : ∀ u, P (c :: u) ↔ Q u) (h : Longest Q text word) :
    Longest P (c :: text) (c :: word) :=
  @append P Q text word [c] hPQ h

theorem drop_length (h : Longest P text word) : word ++ text.drop word.length = text := by
  obtain ⟨rest, rfl⟩ := h.starts
  rw [List.drop_left]

end Longest

theorem longest_takeWhile (p : Char → Bool) (cs : List Char) :
    Longest (fun u => ∀ c ∈ u, p c = true) cs (cs.takeWhile p) where
  starts := List.takeWhile_prefix p
  holds := List.all_eq_true.mp List.all_takeWhile
  le other hother hall := by
    obtain ⟨rest, rfl⟩ := hother
    rw [List.takeWhile_append_of_pos hall, List.length_append]
    omega

/-- Blanks and comments; a comment does not reach beyond its line. -/
inductive Trivia : List Char → Prop
  | nil : Trivia []
  | blank {c : Char} {u : List Char} (hc : isBlank c = true) (hu : Trivia u) : Trivia (c :: u)
  | comment {body u : List Char} (hbody : '\n' ∉ body) (hu : Trivia u) :
      Trivia ('#' :: (body ++ u))

theorem Trivia.blank_iff {c : Char} {u : List Char} (hc : isBlank c = true) :
    Trivia (c :: u) ↔ Trivia u := by
  constructor
  · intro h
    cases h with
    | blank _ hu => exact hu
    | comment => exact absurd hc (by decide)
  · exact .blank hc

theorem Trivia.comment_iff {u : List Char} :
    Trivia ('#' :: u) ↔ ∃ body rest, u = body ++ rest ∧ '\n' ∉ body ∧ Trivia rest := by
  constructor
  · intro h
    cases h with
    | blank hc => exact absurd hc (by decide)
    | comment hbody hu => exact ⟨_, _, rfl, hbody, hu⟩
  · rintro ⟨body, rest, rfl, hbody, hrest⟩
    exact .comment hbody hrest

theorem Trivia.comment_cons_iff {c : Char} {u : List Char} (hc : c ≠ '\n') :
    Trivia ('#' :: c :: u) ↔ Trivia ('#' :: u) := by
  constructor
  · intro h
    obtain ⟨body, rest, heq, hbody, hrest⟩ := Trivia.comment_iff.mp h
    cases body with
    | cons b body =>
      obtain ⟨rfl, rfl⟩ := List.cons_eq_cons.mp heq
      exact .comment (fun hmem => hbody (List.mem_cons_of_mem _ hmem)) hrest
    | nil =>
      rw [List.nil_append] at heq
      subst heq
      cases hrest with
      | blank _ hu => exact @Trivia.comment [] _ (by simp) hu
      | comment hbody hu => exact .comment hbody hu
  · intro h
    obtain ⟨body, rest, rfl, hbody, hrest⟩ := Trivia.comment_iff.mp h
    have hbody' : '\n' ∉ c :: body := by
      intro hmem
      rcases List.mem_cons.mp hmem with rfl | hmem
      · exact hc rfl
      · exact hbody hmem
    exact @Trivia.comment (c :: body) rest hbody' hrest

theorem Trivia.comment_newline_iff {u : List Char} : Trivia ('#' :: '\n' :: u) ↔ Trivia u := by
  constructor
  · intro h
    obtain ⟨body, rest, heq, hbody, hrest⟩ := Trivia.comment_iff.mp h
    cases body with
    | cons b body =>
      obtain ⟨rfl, -⟩ := List.cons_eq_cons.mp heq
      exact absurd List.mem_cons_self hbody
    | nil =>
      rw [List.nil_append] at heq
      subst heq
      exact (Trivia.blank_iff (by decide)).mp hrest
  · intro h
    exact @Trivia.comment [] _ (by simp) (.blank (by decide) h)

/-- The line behind a text that starts on line 1. -/
def lineAfter (before : List Char) : Nat :=
  1 + before.count '\n'

/-- The column behind a text that starts on column 1. -/
def columnAfter (before : List Char) : Nat :=
  1 + (before.reverse.takeWhile (· ≠ '\n')).length

theorem lineAfter_newline (before : List Char) :
    lineAfter (before ++ ['\n']) = lineAfter before + 1 := by
  simp [lineAfter, Nat.add_assoc]

theorem columnAfter_newline (before : List Char) : columnAfter (before ++ ['\n']) = 1 := by
  simp [columnAfter]

theorem lineAfter_append {word : List Char} (before : List Char) (h : '\n' ∉ word) :
    lineAfter (before ++ word) = lineAfter before := by
  simp [lineAfter, List.count_eq_zero.mpr h]

theorem columnAfter_append {word : List Char} (before : List Char) (h : '\n' ∉ word) :
    columnAfter (before ++ word) = columnAfter before + word.length := by
  have hall : ∀ c ∈ word.reverse, decide (c ≠ '\n') = true := by
    intro c hc
    refine decide_eq_true ?_
    rintro rfl
    exact h (List.mem_reverse.mp hc)
  rw [columnAfter, columnAfter, List.reverse_append, List.takeWhile_append_of_pos hall,
    List.length_append, List.length_reverse]
  omega

/-- The start of the comment that is being skipped. -/
def opener (comment : Bool) : List Char :=
  if comment then ['#'] else []

/-- Skipping passes the longest trivia and ends at the place behind it. -/
def SkipsLongest (comment : Bool) (before cs : List Char) : Prop :=
  ∃ u, Longest (fun u => Trivia (opener comment ++ u)) cs u ∧
    Cursor.skip comment (lineAfter before) (columnAfter before) cs =
      ⟨cs.drop u.length, lineAfter (before ++ u), columnAfter (before ++ u)⟩

theorem SkipsLongest.stop {comment : Bool} {before cs : List Char}
    (h : ∀ c u, c :: u <+: cs → ¬ Trivia (opener comment ++ c :: u))
    (hskip : Cursor.skip comment (lineAfter before) (columnAfter before) cs =
      ⟨cs, lineAfter before, columnAfter before⟩) : SkipsLongest comment before cs := by
  have hnil : Trivia (opener comment ++ []) := by
    cases comment with
    | false => exact .nil
    | true => exact @Trivia.comment [] [] (by simp) .nil
  refine ⟨[], .nil_of_forall_not hnil h, ?_⟩
  rw [hskip, List.append_nil]
  rfl

theorem SkipsLongest.pass {comment comment' : Bool} {c : Char} {before cs : List Char}
    (h : SkipsLongest comment' (before ++ [c]) cs)
    (hiff : ∀ u, Trivia (opener comment ++ c :: u) ↔ Trivia (opener comment' ++ u))
    (hskip : Cursor.skip comment (lineAfter before) (columnAfter before) (c :: cs) =
      Cursor.skip comment' (lineAfter (before ++ [c])) (columnAfter (before ++ [c])) cs) :
    SkipsLongest comment before (c :: cs) := by
  obtain ⟨u, hu, heq⟩ := h
  refine ⟨c :: u, hu.cons hiff, ?_⟩
  rw [hskip, heq, List.append_assoc]
  rfl

theorem skipsLongest (comment : Bool) (before cs : List Char) :
    SkipsLongest comment before cs := by
  induction cs generalizing comment before with
  | nil => exact .stop (fun c u h => absurd (List.prefix_nil.mp h) (List.cons_ne_nil c u)) rfl
  | cons c cs ih =>
    by_cases hnewline : c = '\n'
    · subst hnewline
      refine (ih false (before ++ ['\n'])).pass (fun u => ?_) ?_
      · cases comment with
        | false => exact Trivia.blank_iff (by decide)
        | true => exact Trivia.comment_newline_iff
      · rw [Cursor.skip, if_pos rfl, lineAfter_newline, columnAfter_newline]
    have hword : '\n' ∉ [c] := fun h => hnewline (List.mem_singleton.mp h).symm
    have hline := lineAfter_append before hword
    have hcolumn := columnAfter_append before hword
    by_cases hpass : (comment || isBlank c) = true
    · refine (ih comment (before ++ [c])).pass (fun u => ?_) ?_
      · cases comment with
        | false => exact Trivia.blank_iff hpass
        | true => exact Trivia.comment_cons_iff hnewline
      · rw [Cursor.skip, if_neg hnewline, if_pos hpass, hline, hcolumn]
        rfl
    obtain ⟨rfl, hblank⟩ : comment = false ∧ isBlank c = false := by simpa using hpass
    by_cases hhash : c = '#'
    · subst hhash
      refine (ih true (before ++ ['#'])).pass (fun u => Iff.rfl) ?_
      rw [Cursor.skip, if_neg hnewline, if_neg hpass, if_pos rfl, hline, hcolumn]
      rfl
    · refine .stop ?_ ?_
      · intro d u hu htrivia
        obtain ⟨rfl, -⟩ := List.cons_prefix_cons.mp hu
        cases htrivia with
        | blank hc => exact absurd hc (by simp [hblank])
        | comment => exact hhash rfl
      · rw [Cursor.skip, if_neg hnewline, if_neg hpass, if_neg hhash]

theorem skip_head_ne_newline {comment : Bool} {line column line' column' : Nat} {first : Char}
    {cs others : List Char}
    (h : Cursor.skip comment line column cs = ⟨first :: others, line', column'⟩) :
    first ≠ '\n' := by
  induction cs generalizing comment line column with
  | nil => cases h
  | cons c cs ih =>
    unfold Cursor.skip at h
    split at h
    · exact ih h
    · rename_i hnewline
      split at h
      · exact ih h
      · split at h
        · exact ih h
        · cases h
          exact hnewline

end Primer.Lexing
