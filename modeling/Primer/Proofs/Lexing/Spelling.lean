import Primer.Proofs.Lexing.LongestMatch

/-! # Writing lexemes and reading them back

A lexeme that is written down is split off as a whole, provided that the text behind it does not go
on with it. A blank never does, so that lexemes with blanks between them are read back one by one.
-/
namespace Primer.Lexing
open Text

/-- The lexemes that tokens are written with. -/
inductive Writable : Lexeme → Prop
  | digits {run : List Char} (hne : run ≠ []) (hrun : ∀ c ∈ run, c.isDigit = true) :
      Writable (.digits run)
  | decimal {whole fraction : List Char} (hne : whole ≠ [])
      (hwhole : ∀ c ∈ whole, c.isDigit = true) (hfraction : ∀ c ∈ fraction, c.isDigit = true) :
      Writable (.decimal whole fraction)
  | word {first : Char} {others : List Char} (hfirst : isLetter first = true)
      (hothers : ∀ c ∈ others, isWordChar c = true) : Writable (.word (first :: others))
  | mark (m : Mark) : Writable (.mark m)

/-- The character would make the lexeme in front of it longer. -/
def goesOn : Lexeme → Char → Bool
  | .digits _, c => c.isDigit || c == '.'
  | .decimal .., c => c.isDigit
  | .word _, c => startsLikeWordChar c
  | _, _ => false

def EndsBefore (l : Lexeme) (rest : List Char) : Prop :=
  ∀ c ∈ rest.head?, goesOn l c = false

theorem startsLikeWordChar_of_isWordChar {c : Char} (h : isWordChar c = true) :
    startsLikeWordChar c = true := by
  unfold isWordChar isLetter isDecimalDigit at h
  unfold startsLikeWordChar
  simp only [Bool.or_eq_true] at h ⊢
  rcases h with (h | h) | h
  · exact .inl (.inl (startsInClass_of_inClass h))
  · exact .inl (.inr (startsInClass_of_inClass h))
  · exact .inr h

theorem span_append {p : Char → Bool} {run rest : List Char} (hrun : ∀ c ∈ run, p c = true)
    (hrest : ∀ c ∈ rest.head?, p c = false) :
    (run ++ rest).takeWhile p = run ∧ (run ++ rest).dropWhile p = rest := by
  rw [List.takeWhile_append_of_pos hrun, List.dropWhile_append_of_pos hrun]
  cases rest with
  | nil => simp
  | cons c rest => simp [hrest c rfl]

theorem split_word {first : Char} {others rest : List Char} (hfirst : isLetter first = true)
    (hothers : ∀ c ∈ others, isWordChar c = true) (hrest : ∀ c ∈ rest.head?, isWordChar c = false) :
    Lexeme.split first (others ++ rest) = (Lexeme.ofWord (first :: others) rest, rest) := by
  have hdigit : ¬ first.isDigit = true := by
    intro hc
    rw [isLetter_of_isDigit hc] at hfirst
    cases hfirst
  obtain ⟨htake, hdrop⟩ := span_append hothers hrest
  rw [Lexeme.split, if_neg hdigit, if_pos hfirst]
  simp only [htake, hdrop]

theorem Writable.split_spelling {l : Lexeme} {rest : List Char} (h : Writable l)
    (hrest : EndsBefore l rest) :
    ∃ c cs, l.spelling ++ rest = c :: cs ∧ Lexeme.split c cs = (l, rest) := by
  cases h with
  | @digits run hne hrun =>
    obtain ⟨c, run, rfl⟩ := List.exists_cons_of_ne_nil hne
    obtain ⟨hc, hrun⟩ := List.forall_mem_cons.mp hrun
    have hstop : ∀ d ∈ rest.head?, d.isDigit = false ∧ d ≠ '.' := by
      intro d hd
      simpa [goesOn] using hrest d hd
    obtain ⟨htake, hdrop⟩ := span_append hrun fun d hd => (hstop d hd).1
    refine ⟨c, run ++ rest, rfl, ?_⟩
    rw [Lexeme.split, if_pos hc, htake, hdrop]
    split
    · exact absurd rfl (hstop '.' rfl).2
    · rfl
  | @decimal whole fraction hne hwhole hfraction =>
    obtain ⟨c, whole, rfl⟩ := List.exists_cons_of_ne_nil hne
    obtain ⟨hc, hwhole⟩ := List.forall_mem_cons.mp hwhole
    obtain ⟨htake, hdrop⟩ := @span_append _ whole ('.' :: (fraction ++ rest)) hwhole (by
      rintro _ ⟨⟩
      decide)
    obtain ⟨htake', hdrop'⟩ := span_append hfraction hrest
    refine ⟨c, whole ++ '.' :: (fraction ++ rest), by simp [Lexeme.spelling], ?_⟩
    rw [Lexeme.split, if_pos hc, htake, hdrop]
    simp only [htake', hdrop']
  | @word first others hfirst hothers =>
    have hlike : ∀ d ∈ rest.head?, startsLikeWordChar d = false := hrest
    have hstop : ∀ d ∈ rest.head?, isWordChar d = false := by
      intro d hd
      rw [← Bool.not_eq_true]
      intro hword
      exact absurd (startsLikeWordChar_of_isWordChar hword) (by simp [hlike d hd])
    refine ⟨first, others ++ rest, rfl, ?_⟩
    have hword : Lexeme.ofWord (first :: others) rest = .word (first :: others) := by
      unfold Lexeme.ofWord
      cases rest with
      | nil => rfl
      | cons d rest => simp [hlike d rfl]
    rw [split_word hfirst hothers hstop, hword]
  | mark m =>
    refine ⟨m.char, rest, rfl, ?_⟩
    rw [Lexeme.split, if_neg (by simp [isDigit_mark]), if_neg (by simp [isLetter_mark]),
      Mark.ofChar?_char]

theorem isBlank_of_inClass {ranges : List CodeRange} {c : Char} (hascending : ascending ranges = true)
    (hapart : ∀ r ∈ ranges, ∀ s ∈ blankRanges, r.last < s.first ∨ s.last < r.first)
    (h : inClass ranges c.toNat = true) : isBlank c = false := by
  obtain ⟨r, hr, hfirst, hlast⟩ := (inClass_iff hascending).mp h
  rw [← Bool.not_eq_true]
  intro hblank
  obtain ⟨s, hs, hfirst', hlast'⟩ := (inClass_iff ascending_blankRanges).mp hblank
  have := hapart r hr s hs
  omega

theorem isBlank_of_isLetter {c : Char} (h : isLetter c = true) : isBlank c = false :=
  isBlank_of_inClass ascending_letterRanges (by decide +kernel) h

theorem isBlank_of_isWordChar {c : Char} (h : isWordChar c = true) : isBlank c = false := by
  unfold isWordChar isDecimalDigit at h
  simp only [Bool.or_eq_true, beq_iff_eq] at h
  rcases h with (h | h) | rfl
  · exact isBlank_of_isLetter h
  · exact isBlank_of_inClass ascending_decimalDigitRanges (by decide +kernel) h
  · decide

theorem isBlank_of_isDigit {c : Char} (h : c.isDigit = true) : isBlank c = false := by
  have hapart : ∀ s ∈ blankRanges, s.last < 48 ∨ 57 < s.first := by decide
  simp only [Char.isDigit, Bool.and_eq_true, decide_eq_true_eq] at h
  have hfirst : 48 ≤ c.toNat := UInt32.le_iff_toNat_le.mp h.1
  have hlast : c.toNat ≤ 57 := UInt32.le_iff_toNat_le.mp h.2
  rw [← Bool.not_eq_true]
  intro hblank
  obtain ⟨s, hs, hfirst', hlast'⟩ := (inClass_iff ascending_blankRanges).mp hblank
  have := hapart s hs
  omega

theorem Writable.starts {l : Lexeme} {c : Char} {u : List Char} (h : Writable l)
    (hl : l.spelling = c :: u) : isBlank c = false ∧ c ≠ '#' := by
  have hdigit (hc : c.isDigit = true) : isBlank c = false ∧ c ≠ '#' := by
    refine ⟨isBlank_of_isDigit hc, ?_⟩
    rintro rfl
    exact absurd hc (by decide)
  cases h with
  | @digits run hne hrun =>
    have hmem : c ∈ (Lexeme.digits run).spelling := hl ▸ List.mem_cons_self
    exact hdigit (hrun c hmem)
  | @decimal whole fraction hne hwhole hfraction =>
    obtain ⟨d, whole, rfl⟩ := List.exists_cons_of_ne_nil hne
    obtain ⟨rfl, -⟩ := List.cons_eq_cons.mp hl
    exact hdigit (hwhole d List.mem_cons_self)
  | word hfirst =>
    obtain ⟨rfl, -⟩ := List.cons_eq_cons.mp hl
    refine ⟨isBlank_of_isLetter hfirst, ?_⟩
    rintro rfl
    exact absurd hfirst (by decide)
  | mark m =>
    obtain ⟨rfl, -⟩ := List.cons_eq_cons.mp hl
    cases m <;> decide

theorem skipTrivia_of_starts {c : Char} {cs : List Char} {line column : Nat}
    (hblank : isBlank c = false) (hcomment : c ≠ '#') :
    Cursor.skipTrivia ⟨c :: cs, line, column⟩ = ⟨c :: cs, line, column⟩ := by
  have hnewline : c ≠ '\n' := by
    rintro rfl
    exact absurd hblank (by decide)
  rw [Cursor.skipTrivia, Cursor.skip, if_neg hnewline, if_neg (by simp [hblank]), if_neg hcomment]

theorem next_of_split {l : Lexeme} {c : Char} {cs rest : List Char} (hblank : isBlank c = false)
    (hcomment : c ≠ '#') (hsplit : Lexeme.split c cs = (l, rest)) (line column : Nat) :
    Cursor.next ⟨c :: cs, line, column⟩ =
      (l.reading line column, ⟨rest, line, column + l.spelling.length⟩) := by
  rw [next_of_skipTrivia_cons (skipTrivia_of_starts hblank hcomment), hsplit]

theorem Writable.next_eq {l : Lexeme} {rest : List Char} (h : Writable l)
    (hrest : EndsBefore l rest) (line column : Nat) :
    Cursor.next ⟨l.spelling ++ rest, line, column⟩ =
      (l.reading line column, ⟨rest, line, column + l.spelling.length⟩) := by
  obtain ⟨c, cs, hcs, hsplit⟩ := h.split_spelling hrest
  obtain ⟨d, u, hl⟩ : ∃ d u, l.spelling = d :: u := by
    have hne := Lexeme.spelling_split_ne_nil c cs
    rw [hsplit] at hne
    exact List.exists_cons_of_ne_nil hne
  obtain ⟨rfl, -⟩ : d = c ∧ u ++ rest = cs := by simpa [hl] using hcs
  obtain ⟨hblank, hcomment⟩ := h.starts hl
  rw [hcs]
  exact next_of_split hblank hcomment hsplit line column

/-- The lexeme is a way to write the token. -/
structure Writes (l : Lexeme) (t : Token) : Prop where
  writable : Writable l
  reading_eq : ∀ line column, l.reading line column = .token t line

/-- A letter, with letters, digits and underscores behind it. -/
def isWord : List Char → Bool
  | [] => false
  | c :: cs => isLetter c && cs.all isWordChar

theorem writes_word {s : String} {t : Token} (hs : isWord s.toList = true)
    (ht : Token.ofWord s = t) : Writes (.word s.toList) t where
  writable := by
    generalize s.toList = chars at hs
    cases chars with
    | nil => cases hs
    | cons c cs =>
      obtain ⟨hc, hcs⟩ := Bool.and_eq_true_iff.mp hs
      exact .word hc (List.all_eq_true.mp hcs)
  reading_eq line column := by rw [Lexeme.reading, String.ofList_toList, ht]

/-- A word that is not reserved. -/
structure IsIdentifier (name : String) : Prop where
  isWord : isWord name.toList = true
  not_reserved : name ∉ reservedWords.map Prod.fst

theorem IsIdentifier.writes {name : String} (h : IsIdentifier name) :
    Writes (.word name.toList) (.name name) := by
  refine writes_word h.isWord (ofWord_of_not_reserved fun t ht => h.not_reserved ?_)
  exact List.mem_map.mpr ⟨_, ht, rfl⟩

theorem writes_mark (m : Mark) : Writes (.mark m) (.mark m) where
  writable := .mark m
  reading_eq _ _ := rfl

theorem Writes.ofCursor_eq {l : Lexeme} {t : Token} {rest : List Char} (h : Writes l t)
    (hrest : EndsBefore l rest) (line column : Nat) :
    TokenStream.ofCursor ⟨l.spelling ++ rest, line, column⟩ =
      ⟨⟨t, line⟩ :: (TokenStream.ofCursor ⟨rest, line, column + l.spelling.length⟩).tokens,
        (TokenStream.ofCursor ⟨rest, line, column + l.spelling.length⟩).ending⟩ := by
  refine TokenStream.ofCursor_of_token ?_
  rw [h.writable.next_eq hrest, h.reading_eq]

theorem endsBefore_space (l : Lexeme) (rest : List Char) : EndsBefore l (' ' :: rest) := by
  rintro _ ⟨⟩
  cases l <;> rfl

theorem next_congr {c d : Cursor} (h : c.skipTrivia = d.skipTrivia) : c.next = d.next := by
  rw [Cursor.next, h]
  rfl

theorem ofCursor_congr {c d : Cursor} (h : c.skipTrivia = d.skipTrivia) :
    TokenStream.ofCursor c = TokenStream.ofCursor d := by
  have hnext := next_congr h
  rcases hd : d.next with ⟨t | line | f, after⟩
  · rw [TokenStream.ofCursor_of_token hd, TokenStream.ofCursor_of_token (hnext.trans hd)]
  · rw [TokenStream.ofCursor_of_finish hd, TokenStream.ofCursor_of_finish (hnext.trans hd)]
  · rw [TokenStream.ofCursor_of_fault hd, TokenStream.ofCursor_of_fault (hnext.trans hd)]

theorem ofCursor_space (rest : List Char) (line column : Nat) :
    TokenStream.ofCursor ⟨' ' :: rest, line, column⟩ =
      TokenStream.ofCursor ⟨rest, line, column + 1⟩ := by
  refine ofCursor_congr ?_
  simp only [Cursor.skipTrivia]
  rw [Cursor.skip, if_neg (by decide), if_pos (by decide)]

def spaced : List Lexeme → List Char
  | [] => []
  | [l] => l.spelling
  | l :: m :: others => l.spelling ++ ' ' :: spaced (m :: others)

theorem ofCursor_spaced {lexeme : Token → Lexeme} {ts : List Token}
    (h : ∀ t ∈ ts, Writes (lexeme t) t) (line column : Nat) :
    TokenStream.ofCursor ⟨spaced (ts.map lexeme), line, column⟩ =
      ⟨ts.map fun t => ⟨t, line⟩, .finish line⟩ := by
  induction ts generalizing column with
  | nil => exact TokenStream.ofCursor_of_finish rfl
  | cons t ts ih =>
    obtain ⟨ht, hts⟩ := List.forall_mem_cons.mp h
    cases ts with
    | nil =>
      have hread := @Writes.ofCursor_eq _ _ [] ht (by simp [EndsBefore]) line column
      rw [List.append_nil] at hread
      rw [List.map_singleton, spaced, hread, TokenStream.ofCursor_of_finish rfl]
      rfl
    | cons u ts =>
      rw [List.map_cons, List.map_cons, spaced, ht.ofCursor_eq (endsBefore_space _ _),
        ofCursor_space, ← List.map_cons, ih hts]
      rfl

end Primer.Lexing
