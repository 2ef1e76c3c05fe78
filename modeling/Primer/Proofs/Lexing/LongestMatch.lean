import Primer.Proofs.Lexing.Pattern
import Primer.Proofs.Lexing.Steps

/-! # Reading by longest match

A step of reading is described by the text alone and the position before it: it skips the longest
trivia and takes the longest word of any pattern, or one stray character. Every step of a cursor is
of this kind, also behind a fault, except at a reserved word that ends late. Such a word is read as a
name.
-/
namespace Primer.Lexing

def lineAt (text : List Char) (p : Nat) : Nat := lineAfter (text.take p)

def columnAt (text : List Char) (p : Nat) : Nat := columnAfter (text.take p)

/-- A step of reading from position `p`: what it finds, and the position behind it. -/
inductive Step (text : List Char) (p : Nat) : Reading → Nat → Prop
  | finish {blanks : List Char} (hblanks : Longest Trivia (text.drop p) blanks)
      (hend : p + blanks.length = text.length) :
      Step text p (.finish (lineAt text text.length)) text.length
  | token {blanks word : List Char} {r : Reading}
      (hblanks : Longest Trivia (text.drop p) blanks)
      (hword : Longest Pattern (text.drop (p + blanks.length)) word)
      (hread : ReadsAs (lineAt text (p + blanks.length)) word r) :
      Step text p r (p + blanks.length + word.length)
  | stray {blanks : List Char} {c : Char} (hblanks : Longest Trivia (text.drop p) blanks)
      (hc : text[p + blanks.length]? = some c)
      (hnone : ∀ word, word <+: text.drop (p + blanks.length) → ¬ Pattern word) :
      Step text p (.fault (.strayCharacter c (lineAt text (p + blanks.length))
        (columnAt text (p + blanks.length)))) (p + blanks.length + 1)

/-- Behind the blanks at position `p` there is a reserved word that ends late. -/
structure LateAt (text : List Char) (p : Nat) (blanks word : List Char) : Prop where
  trivia : Longest Trivia (text.drop p) blanks
  token : Longest Pattern (text.drop (p + blanks.length)) word
  late : EndsLate word (text.drop (p + blanks.length + word.length))

theorem LateAt.not_step {text : List Char} {p p' line : Nat} {blanks word : List Char} {s : String}
    (h : LateAt text p blanks word) : ¬ Step text p (.token (.name s) line) p' := by
  obtain ⟨⟨t, ht⟩, -⟩ := h.late
  intro hstep
  generalize hr : Reading.token (.name s) line = r at hstep
  cases hstep with
  | finish => cases hr
  | stray => cases hr
  | token hblanks hword hread =>
    obtain rfl := hblanks.unique h.trivia
    obtain rfl := hword.unique h.token
    have hreserved := hread.of_reserved ht
    rw [← hr] at hreserved
    cases hreserved
    exact ne_name_of_reserved ht rfl

def cursorAt (text : List Char) (p : Nat) : Cursor :=
  ⟨text.drop p, lineAt text p, columnAt text p⟩

theorem take_drop_of_drop_eq {text word rest : List Char} {p : Nat}
    (h : text.drop p = word ++ rest) :
    text.take (p + word.length) = text.take p ++ word ∧ text.drop (p + word.length) = rest := by
  constructor
  · rw [List.take_add, h, List.take_left]
  · rw [← List.drop_drop, h, List.drop_left]

theorem cursorAt_append {text word rest : List Char} {p : Nat} (h : text.drop p = word ++ rest)
    (hword : '\n' ∉ word) :
    cursorAt text (p + word.length) = ⟨rest, lineAt text p, columnAt text p + word.length⟩ := by
  obtain ⟨htake, hdrop⟩ := take_drop_of_drop_eq h
  rw [cursorAt, hdrop, lineAt, columnAt, htake, lineAfter_append _ hword,
    columnAfter_append _ hword]
  rfl

theorem skipTrivia_cursorAt (text : List Char) (p : Nat) :
    ∃ blanks, Longest Trivia (text.drop p) blanks ∧
      (cursorAt text p).skipTrivia = cursorAt text (p + blanks.length) := by
  obtain ⟨blanks, hblanks, hskip⟩ := skipsLongest false (text.take p) (text.drop p)
  obtain ⟨htake, hdrop⟩ := take_drop_of_drop_eq hblanks.drop_length.symm
  refine ⟨blanks, hblanks, hskip.trans ?_⟩
  rw [cursorAt, lineAt, columnAt, htake, hdrop]

/-- One step goes by longest match exactly if no word ends late, and reads a name if one does. -/
structure StepLaw (text : List Char) (p : Nat) (r : Reading) (p' : Nat) : Prop where
  step_iff : Step text p r p' ↔ ¬ ∃ blanks word, LateAt text p blanks word
  late : ∀ blanks word, LateAt text p blanks word →
    r = .token (.name (String.ofList word)) (lineAt text (p + blanks.length)) ∧
      p' = p + blanks.length + word.length

theorem StepLaw.of_step {text : List Char} {p p' : Nat} {r : Reading} (hstep : Step text p r p')
    (hnot : ∀ blanks word, ¬ LateAt text p blanks word) : StepLaw text p r p' where
  step_iff := by
    refine iff_of_true hstep ?_
    rintro ⟨blanks, word, h⟩
    exact hnot blanks word h
  late blanks word h := absurd h (hnot blanks word)

theorem StepLaw.of_late {text : List Char} {p : Nat} {blanks word : List Char}
    (h : LateAt text p blanks word) :
    StepLaw text p (.token (.name (String.ofList word)) (lineAt text (p + blanks.length)))
      (p + blanks.length + word.length) where
  step_iff := iff_of_false h.not_step fun hnot => hnot ⟨blanks, word, h⟩
  late blanks' word' h' := by
    obtain rfl := h.trivia.unique h'.trivia
    obtain rfl := h.token.unique h'.token
    exact ⟨rfl, rfl⟩

theorem next_of_skipTrivia_nil {c : Cursor} {line column : Nat}
    (h : c.skipTrivia = ⟨[], line, column⟩) : c.next = (.finish line, ⟨[], line, column⟩) := by
  rw [Cursor.next, h]

theorem next_of_skipTrivia_cons {c : Cursor} {first : Char} {others : List Char}
    {line column : Nat} (h : c.skipTrivia = ⟨first :: others, line, column⟩) :
    c.next = ((Lexeme.split first others).1.reading line column,
      ⟨(Lexeme.split first others).2, line,
        column + (Lexeme.split first others).1.spelling.length⟩) := by
  rw [Cursor.next, h]

/-- The step from `p` leads to another position of the text, by the law. -/
def Advances (text : List Char) (p : Nat) : Prop :=
  ∃ p' ≤ text.length, (cursorAt text p).next.2 = cursorAt text p' ∧
    StepLaw text p (cursorAt text p).next.1 p'

theorem advances_at_end {text blanks : List Char} {p : Nat}
    (hblanks : Longest Trivia (text.drop p) blanks)
    (hskip : (cursorAt text p).skipTrivia = cursorAt text (p + blanks.length))
    (hend : p + blanks.length = text.length) : Advances text p := by
  have hrest : text.drop (p + blanks.length) = [] := by
    rw [hend, List.drop_length]
  have hcursor : cursorAt text (p + blanks.length) =
      ⟨[], lineAt text (p + blanks.length), columnAt text (p + blanks.length)⟩ := by
    rw [cursorAt, hrest]
  refine ⟨p + blanks.length, Nat.le_of_eq hend, ?_, ?_⟩
  · rw [next_of_skipTrivia_nil (hskip.trans hcursor), hcursor]
  · rw [next_of_skipTrivia_nil (hskip.trans hcursor), hend]
    refine .of_step (.finish hblanks hend) ?_
    intro blanks' word h
    obtain rfl := hblanks.unique h.trivia
    have hword := h.token.starts
    rw [hrest] at hword
    exact h.token.holds.ne_nil (List.prefix_nil.mp hword)

theorem stepLaw_split {text blanks cs : List Char} {p : Nat} {c : Char}
    (hblanks : Longest Trivia (text.drop p) blanks)
    (hrest : text.drop (p + blanks.length) = c :: cs) :
    StepLaw text p
      ((Lexeme.split c cs).1.reading (lineAt text (p + blanks.length))
        (columnAt text (p + blanks.length)))
      (p + blanks.length + (Lexeme.split c cs).1.spelling.length) := by
  rcases (splitForm c cs).longest with hlongest | ⟨hstray, hnone⟩
  · have hword : Longest Pattern (text.drop (p + blanks.length)) (Lexeme.split c cs).1.spelling := by
      rwa [hrest]
    have hafter : text.drop (p + blanks.length + (Lexeme.split c cs).1.spelling.length) =
        (Lexeme.split c cs).2 := by
      refine (take_drop_of_drop_eq ?_).2
      rw [hrest, Lexeme.spelling_append_split]
    have hreads := (splitForm c cs).readsAs hlongest.holds (lineAt text (p + blanks.length))
      (columnAt text (p + blanks.length))
    by_cases hlate : EndsLate (Lexeme.split c cs).1.spelling (Lexeme.split c cs).2
    · rw [hreads.2 hlate]
      exact .of_late ⟨hblanks, hword, hafter ▸ hlate⟩
    · refine .of_step (.token hblanks hword (hreads.1 hlate)) ?_
      intro blanks' word' h
      obtain rfl := hblanks.unique h.trivia
      obtain rfl := hword.unique h.token
      exact hlate (hafter ▸ h.late)
  · rw [hstray]
    have hnot : ∀ word, word <+: text.drop (p + blanks.length) → ¬ Pattern word := by
      intro word hword hpattern
      rw [hrest] at hword
      obtain ⟨d, u, rfl⟩ := List.exists_cons_of_ne_nil hpattern.ne_nil
      obtain ⟨rfl, -⟩ := List.cons_prefix_cons.mp hword
      exact hnone u hpattern
    have hc : text[p + blanks.length]? = some c := by
      rw [← List.head?_drop, hrest, List.head?_cons]
    refine .of_step (.stray hblanks hc hnot) ?_
    intro blanks' word h
    obtain rfl := hblanks.unique h.trivia
    exact hnot word h.token.starts h.token.holds

theorem advances {text : List Char} {p : Nat} (hp : p ≤ text.length) : Advances text p := by
  obtain ⟨blanks, hblanks, hskip⟩ := skipTrivia_cursorAt text p
  have hle : p + blanks.length ≤ text.length := by
    have hstarts := hblanks.starts.length_le
    rw [List.length_drop] at hstarts
    omega
  cases hrest : text.drop (p + blanks.length) with
  | nil =>
    exact advances_at_end hblanks hskip (Nat.le_antisymm hle (List.drop_eq_nil_iff.mp hrest))
  | cons c cs =>
    have hcursor : cursorAt text (p + blanks.length) =
        ⟨c :: cs, lineAt text (p + blanks.length), columnAt text (p + blanks.length)⟩ := by
      rw [cursorAt, hrest]
    have hnext := next_of_skipTrivia_cons (hskip.trans hcursor)
    have hsplit := Lexeme.spelling_append_split c cs
    have hnewline : '\n' ∉ (Lexeme.split c cs).1.spelling := by
      rcases (splitForm c cs).longest with hlongest | ⟨hstray, -⟩
      · exact hlongest.holds.newline_not_mem
      · have hc : c ≠ '\n' := skip_head_ne_newline (hskip.trans hcursor)
        rw [hstray]
        exact fun hmem => hc (List.mem_singleton.mp hmem).symm
    refine ⟨p + blanks.length + (Lexeme.split c cs).1.spelling.length, ?_, ?_, ?_⟩
    · have hlen := congrArg List.length (hrest.trans hsplit.symm)
      rw [List.length_drop, List.length_append] at hlen
      omega
    · rw [hnext, cursorAt_append (hrest.trans hsplit.symm) hnewline]
    · rw [hnext]
      exact stepLaw_split hblanks hrest

/-- What step `n` finds in a text. -/
def reading (source : String) (n : Nat) : Reading :=
  ((Cursor.ofString source).after n).next.1

/-- How many characters of the text are passed before step `n`. -/
def position (source : String) (n : Nat) : Nat :=
  source.toList.length - ((Cursor.ofString source).after n).rest.length

theorem exists_after_eq_cursorAt (source : String) (n : Nat) :
    ∃ p ≤ source.toList.length, (Cursor.ofString source).after n = cursorAt source.toList p := by
  induction n with
  | zero => exact ⟨0, Nat.zero_le _, rfl⟩
  | succ n ih =>
    obtain ⟨p, hp, hafter⟩ := ih
    obtain ⟨p', hp', hnext, -⟩ := advances hp
    refine ⟨p', hp', ?_⟩
    rw [Cursor.after, hafter, hnext]

theorem position_eq {source : String} {n p : Nat} (hp : p ≤ source.toList.length)
    (h : (Cursor.ofString source).after n = cursorAt source.toList p) : position source n = p := by
  rw [position, h, cursorAt, List.length_drop]
  omega

theorem stepLaw_position (source : String) (n : Nat) :
    StepLaw source.toList (position source n) (reading source n) (position source (n + 1)) := by
  obtain ⟨p, hp, hafter⟩ := exists_after_eq_cursorAt source n
  obtain ⟨p', hp', hnext, hlaw⟩ := advances hp
  have hafter' : (Cursor.ofString source).after (n + 1) = cursorAt source.toList p' := by
    rw [Cursor.after, hafter, hnext]
  rw [position_eq hp hafter, position_eq hp' hafter', reading, hafter]
  exact hlaw

theorem next_next_of_finish {c : Cursor} {line : Nat} (h : c.next.1 = .finish line) :
    c.next.2.next.1 = .finish line := by
  unfold Cursor.next at h
  split at h
  · rename_i line' column hskip
    cases h
    rw [next_of_skipTrivia_nil hskip]
    exact congrArg Prod.fst (next_of_skipTrivia_nil rfl)
  · exact absurd h (Lexeme.reading_ne_finish _ _ _ _)

theorem after_finish {c : Cursor} {line : Nat} (h : c.next.1 = .finish line) (n : Nat) :
    (c.after n).next.1 = .finish line := by
  induction n with
  | zero => exact h
  | succ n ih => exact next_next_of_finish ih

theorem reading_finish_of_le {source : String} {n m line : Nat}
    (h : reading source n = .finish line) (hle : n ≤ m) : reading source m = .finish line := by
  obtain ⟨d, rfl⟩ := Nat.exists_eq_add_of_le hle
  rw [reading, Cursor.after_add]
  exact after_finish h d

/-- Every step of reading takes the longest trivia and the longest word behind it, and stays at the
end once it is there. Only a reserved word that ends late is not read by its pattern. -/
theorem reading_by_longest_match (source : String) :
    position source 0 = 0 ∧ ∀ n,
      StepLaw source.toList (position source n) (reading source n) (position source (n + 1)) ∧
      ∀ line, reading source n = .finish line → ∀ m, n ≤ m → reading source m = .finish line := by
  refine ⟨position_eq (Nat.zero_le _) rfl, fun n => ⟨stepLaw_position source n, ?_⟩⟩
  intro line hfinish m hle
  exact reading_finish_of_le hfinish hle

theorem lateAt_main : LateAt "main\u00a0".toList 0 [] "main".toList where
  trivia := by
    refine .nil_of_forall_not .nil ?_
    intro c u hu htrivia
    obtain ⟨rfl, -⟩ := List.cons_prefix_cons.mp hu
    cases htrivia with
    | blank hblank => exact absurd hblank (by decide)
  token := by
    rcases (splitForm 'm' "ain\u00a0".toList).longest with hlongest | ⟨hstray, -⟩
    · exact hlongest
    · exact absurd hstray (by decide)
  late := ⟨⟨.keyword .main, by decide⟩, '\u00a0', rfl, '\u00aa', by decide, by decide⟩

/-- The reserved word in front of a no-break space is read as a name. -/
theorem not_step_main_before_no_break_space :
    Step "main\u00a0".toList 0 (.token (.keyword .main) 1) 4 ∧
    reading "main\u00a0" 0 = .token (.name "main") 1 ∧
    ¬ Step "main\u00a0".toList 0 (reading "main\u00a0" 0) (position "main\u00a0" 1) := by
  have hreading : reading "main\u00a0" 0 = .token (.name "main") 1 := by decide
  refine ⟨.token lateAt_main.trivia lateAt_main.token (.reserved (by decide)), hreading, ?_⟩
  rw [hreading]
  exact lateAt_main.not_step

end Primer.Lexing
