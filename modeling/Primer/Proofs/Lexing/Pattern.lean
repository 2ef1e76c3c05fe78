import Primer.Proofs.Lexing.LeadBytes
import Primer.Proofs.Lexing.Trivia

/-! # The longest token

The patterns of the tokens do not mention each other. A text may start with several words that match
one of them, and the lexeme that is split off is the longest of these. Which pattern a word can match
is settled by its first character, because digits, letters and marks have no character in common.
-/
namespace Primer.Lexing
open Text

/-- The words that are tokens. -/
inductive Pattern : List Char → Prop
  | integer {run : List Char} (hne : run ≠ []) (hrun : ∀ c ∈ run, c.isDigit = true) : Pattern run
  | decimal {whole fraction : List Char} (hne : whole ≠ [])
      (hwhole : ∀ c ∈ whole, c.isDigit = true) (hfraction : ∀ c ∈ fraction, c.isDigit = true) :
      Pattern (whole ++ '.' :: fraction)
  | word {first : Char} {others : List Char} (hfirst : isLetter first = true)
      (hothers : ∀ c ∈ others, isWordChar c = true) : Pattern (first :: others)
  | mark (m : Mark) : Pattern [m.char]

theorem isLetter_of_isDigit {c : Char} (h : c.isDigit = true) : isLetter c = false := by
  have hlt : c.toNat < 0x41 := by
    simp only [Char.isDigit, Bool.and_eq_true, decide_eq_true_eq] at h
    have hle : c.toNat ≤ 57 := UInt32.le_iff_toNat_le.mp h.2
    omega
  change inClass (⟨0x41, 0x5A⟩ :: letterRanges.tail) c.toNat = false
  rw [inClass, if_pos hlt]

theorem isLetter_mark (m : Mark) : isLetter m.char = false := by
  cases m <;> decide

theorem isDigit_mark (m : Mark) : m.char.isDigit = false := by
  cases m <;> decide

/-- The words that make a number behind its first digit. -/
inductive NumberTail : List Char → Prop
  | integer {run : List Char} (hrun : ∀ c ∈ run, c.isDigit = true) : NumberTail run
  | decimal {whole fraction : List Char} (hwhole : ∀ c ∈ whole, c.isDigit = true)
      (hfraction : ∀ c ∈ fraction, c.isDigit = true) : NumberTail (whole ++ '.' :: fraction)

theorem pattern_cons_iff {c : Char} {u : List Char} :
    Pattern (c :: u) ↔ (c.isDigit = true ∧ NumberTail u) ∨
      (isLetter c = true ∧ ∀ d ∈ u, isWordChar d = true) ∨ ∃ m : Mark, m.char = c ∧ u = [] := by
  constructor
  · intro h
    generalize hword : c :: u = word at h
    cases h with
    | integer _ hrun =>
      subst hword
      exact .inl ⟨hrun c List.mem_cons_self, .integer fun d hd => hrun d (List.mem_cons_of_mem _ hd)⟩
    | @decimal whole fraction hne hwhole hfraction =>
      cases whole with
      | nil => exact absurd rfl hne
      | cons d whole =>
        obtain ⟨rfl, rfl⟩ := List.cons_eq_cons.mp hword
        have hrest : ∀ e ∈ whole, e.isDigit = true := fun e he => hwhole e (List.mem_cons_of_mem _ he)
        exact .inl ⟨hwhole c List.mem_cons_self, .decimal hrest hfraction⟩
    | word hfirst hothers =>
      obtain ⟨rfl, rfl⟩ := List.cons_eq_cons.mp hword
      exact .inr (.inl ⟨hfirst, hothers⟩)
    | mark m =>
      obtain ⟨rfl, rfl⟩ := List.cons_eq_cons.mp hword
      exact .inr (.inr ⟨m, rfl, rfl⟩)
  · have hdigits {run : List Char} (hc : c.isDigit = true) (hrun : ∀ d ∈ run, d.isDigit = true) :
        ∀ d ∈ c :: run, d.isDigit = true := List.forall_mem_cons.mpr ⟨hc, hrun⟩
    rintro (⟨hc, hrun | ⟨hwhole, hfraction⟩⟩ | ⟨hc, hothers⟩ | ⟨m, rfl, rfl⟩)
    · exact .integer (List.cons_ne_nil _ _) (hdigits hc hrun)
    · exact @Pattern.decimal (c :: _) _ (List.cons_ne_nil _ _) (hdigits hc hwhole) hfraction
    · exact .word hc hothers
    · exact .mark m

theorem pattern_digit_iff {c : Char} {u : List Char} (hc : c.isDigit = true) :
    Pattern (c :: u) ↔ NumberTail u := by
  have hletter : isLetter c = false := isLetter_of_isDigit hc
  have hmark (m : Mark) : m.char ≠ c := by
    rintro rfl
    exact absurd hc (by simp [isDigit_mark])
  simp [pattern_cons_iff, hc, hletter, hmark]

theorem pattern_letter_iff {c : Char} {u : List Char} (hc : isLetter c = true) :
    Pattern (c :: u) ↔ ∀ d ∈ u, isWordChar d = true := by
  have hdigit : c.isDigit = false := by
    rw [← Bool.not_eq_true]
    intro h
    exact absurd hc (by simp [isLetter_of_isDigit h])
  have hmark (m : Mark) : m.char ≠ c := by
    rintro rfl
    exact absurd hc (by simp [isLetter_mark])
  simp [pattern_cons_iff, hc, hdigit, hmark]

theorem pattern_mark_iff {m : Mark} {u : List Char} : Pattern (m.char :: u) ↔ u = [] := by
  simp only [pattern_cons_iff, isDigit_mark, isLetter_mark]
  constructor
  · rintro (⟨h, -⟩ | ⟨h, -⟩ | ⟨-, -, h⟩)
    · cases h
    · cases h
    · exact h
  · intro h
    exact .inr (.inr ⟨m, rfl, h⟩)

theorem not_pattern {c : Char} {u : List Char} (hdigit : c.isDigit = false)
    (hletter : isLetter c = false) (hmark : ∀ m : Mark, m.char ≠ c) : ¬ Pattern (c :: u) := by
  simp [pattern_cons_iff, hdigit, hletter, hmark]

theorem Pattern.ne_nil {word : List Char} (h : Pattern word) : word ≠ [] := by
  cases h with
  | integer hne => exact hne
  | decimal hne => exact List.append_ne_nil_of_left_ne_nil hne _
  | word => exact List.cons_ne_nil _ _
  | mark => exact List.cons_ne_nil _ _

theorem numberTail_digit_iff {c : Char} {u : List Char} (hc : c.isDigit = true) :
    NumberTail (c :: u) ↔ NumberTail u := by
  constructor
  · intro h
    generalize hword : c :: u = word at h
    cases h with
    | integer hrun =>
      subst hword
      exact .integer fun d hd => hrun d (List.mem_cons_of_mem _ hd)
    | @decimal whole fraction hwhole hfraction =>
      cases whole with
      | nil =>
        obtain ⟨rfl, -⟩ := List.cons_eq_cons.mp hword
        exact absurd hc (by decide)
      | cons d whole =>
        obtain ⟨rfl, rfl⟩ := List.cons_eq_cons.mp hword
        exact .decimal (fun e he => hwhole e (List.mem_cons_of_mem _ he)) hfraction
  · rintro (hrun | ⟨hwhole, hfraction⟩)
    · exact .integer (List.forall_mem_cons.mpr ⟨hc, hrun⟩)
    · exact @NumberTail.decimal (c :: _) _ (List.forall_mem_cons.mpr ⟨hc, hwhole⟩) hfraction

theorem numberTail_digits_iff {run u : List Char} (hrun : ∀ c ∈ run, c.isDigit = true) :
    NumberTail (run ++ u) ↔ NumberTail u := by
  induction run with
  | nil => rfl
  | cons c run ih =>
    obtain ⟨hc, hrun⟩ := List.forall_mem_cons.mp hrun
    rw [List.cons_append, numberTail_digit_iff hc, ih hrun]

theorem numberTail_cons_iff {c : Char} {u : List Char} (hc : c.isDigit = false) :
    NumberTail (c :: u) ↔ c = '.' ∧ ∀ d ∈ u, d.isDigit = true := by
  constructor
  · intro h
    generalize hword : c :: u = word at h
    cases h with
    | integer hrun =>
      subst hword
      exact absurd (hrun c List.mem_cons_self) (by simp [hc])
    | @decimal whole fraction hwhole hfraction =>
      cases whole with
      | nil =>
        obtain ⟨rfl, rfl⟩ := List.cons_eq_cons.mp hword
        exact ⟨rfl, hfraction⟩
      | cons d whole =>
        obtain ⟨rfl, -⟩ := List.cons_eq_cons.mp hword
        exact absurd (hwhole c List.mem_cons_self) (by simp [hc])
  · rintro ⟨rfl, hfraction⟩
    exact @NumberTail.decimal [] u (by simp) hfraction

theorem longest_numberTail_point (rest : List Char) :
    Longest NumberTail ('.' :: rest) ('.' :: rest.takeWhile Char.isDigit) := by
  refine (longest_takeWhile Char.isDigit rest).cons fun u => ?_
  rw [numberTail_cons_iff (by decide)]
  exact and_iff_right rfl

theorem longest_numberTail_stop {rest : List Char}
    (h : ∀ c ∈ rest.head?, c.isDigit = false ∧ c ≠ '.') : Longest NumberTail rest [] := by
  refine .nil_of_forall_not (.integer (by simp)) ?_
  intro c u hu
  obtain ⟨tail, rfl⟩ := hu
  obtain ⟨hdigit, hpoint⟩ := h c rfl
  rw [numberTail_cons_iff hdigit]
  exact fun hc => hpoint hc.1

/-- The form of what is split off, by the first characters of the text. -/
inductive SplitForm (c : Char) (cs : List Char) : Lexeme × List Char → Prop
  | decimal {rest : List Char} (hc : c.isDigit = true)
      (hpoint : cs.dropWhile Char.isDigit = '.' :: rest) :
      SplitForm c cs (.decimal (c :: cs.takeWhile Char.isDigit) (rest.takeWhile Char.isDigit),
        rest.dropWhile Char.isDigit)
  | digits (hc : c.isDigit = true) (hpoint : ∀ rest, cs.dropWhile Char.isDigit ≠ '.' :: rest) :
      SplitForm c cs (.digits (c :: cs.takeWhile Char.isDigit), cs.dropWhile Char.isDigit)
  | word (hc : isLetter c = true) :
      SplitForm c cs (.ofWord (c :: cs.takeWhile isWordChar) (cs.dropWhile isWordChar),
        cs.dropWhile isWordChar)
  | mark {m : Mark} (hm : m.char = c) : SplitForm c cs (.mark m, cs)
  | stray (hdigit : c.isDigit = false) (hletter : isLetter c = false)
      (hmark : ∀ m : Mark, m.char ≠ c) : SplitForm c cs (.stray c, cs)

theorem splitForm (c : Char) (cs : List Char) : SplitForm c cs (Lexeme.split c cs) := by
  unfold Lexeme.split
  split
  · rename_i hc
    split
    · rename_i rest hpoint
      exact .decimal hc hpoint
    · rename_i hpoint
      exact .digits hc hpoint
  · rename_i hdigit
    split
    · rename_i hc
      exact .word hc
    · rename_i hletter
      split
      · rename_i m hm
        exact .mark (Mark.char_of_ofChar?_eq_some hm)
      · rename_i hnone
        refine .stray (by simpa using hdigit) (by simpa using hletter) ?_
        rintro m rfl
        rw [Mark.ofChar?_char] at hnone
        cases hnone

theorem longest_number {c : Char} {cs u : List Char} (hc : c.isDigit = true)
    (h : Longest NumberTail (cs.dropWhile Char.isDigit) u) :
    Longest Pattern (c :: cs) (c :: cs.takeWhile Char.isDigit ++ u) := by
  have hrun : ∀ d ∈ cs.takeWhile Char.isDigit, d.isDigit = true :=
    List.all_eq_true.mp List.all_takeWhile
  have htail : Longest NumberTail cs (cs.takeWhile Char.isDigit ++ u) := by
    have happend := h.append fun v => numberTail_digits_iff hrun
    rwa [List.takeWhile_append_dropWhile] at happend
  exact htail.cons fun v => pattern_digit_iff hc

/-- The longest word of any pattern is split off, or a stray character if there is none. -/
theorem SplitForm.longest {c : Char} {cs : List Char} {r : Lexeme × List Char}
    (h : SplitForm c cs r) :
    Longest Pattern (c :: cs) r.1.spelling ∨ r = (.stray c, cs) ∧ ∀ u, ¬ Pattern (c :: u) := by
  cases h with
  | @decimal rest hc hpoint =>
    left
    refine longest_number hc ?_
    rw [hpoint]
    exact longest_numberTail_point rest
  | digits hc hpoint =>
    left
    have hlongest : Longest Pattern (c :: cs) (c :: cs.takeWhile Char.isDigit ++ []) := by
      refine longest_number hc (longest_numberTail_stop ?_)
      intro d hd
      have hnot := List.head?_dropWhile_not Char.isDigit cs
      rw [hd] at hnot
      refine ⟨hnot, ?_⟩
      rintro rfl
      obtain ⟨rest, hrest⟩ := List.head?_eq_some_iff.mp hd
      exact hpoint rest hrest
    rwa [List.append_nil] at hlongest
  | word hc =>
    left
    rw [Lexeme.spelling_ofWord]
    exact (longest_takeWhile isWordChar cs).cons fun u => pattern_letter_iff hc
  | @mark m hm =>
    left
    subst hm
    have hnil : Longest (fun u => u = []) cs [] :=
      .nil_of_forall_not rfl fun d u _ => List.cons_ne_nil d u
    exact hnil.cons fun u => pattern_mark_iff
  | stray hdigit hletter hmark =>
    exact .inr ⟨rfl, fun u => not_pattern hdigit hletter hmark⟩

def reservedWords : List (String × Token) :=
  [("main", .keyword .main), ("var", .keyword .var), ("proc", .keyword .proc), ("Int", .type .int),
   ("Float", .type .float)]

/-- What a word is read as. -/
inductive ReadsAs (line : Nat) : List Char → Reading → Prop
  | integer {run : List Char} (hne : run ≠ []) (hrun : ∀ c ∈ run, c.isDigit = true)
      (hle : Nat.ofDigitChars 10 run 0 ≤ 0x7FFFFFFFFFFFFFFF) :
      ReadsAs line run (.token (.int (Int64.ofNat (Nat.ofDigitChars 10 run 0))) line)
  | tooLarge {run : List Char} (hne : run ≠ []) (hrun : ∀ c ∈ run, c.isDigit = true)
      (hgt : 0x7FFFFFFFFFFFFFFF < Nat.ofDigitChars 10 run 0) :
      ReadsAs line run (.fault (.integerTooLarge (String.ofList run) line))
  | decimal {whole fraction : List Char} (hne : whole ≠ [])
      (hwhole : ∀ c ∈ whole, c.isDigit = true) (hfraction : ∀ c ∈ fraction, c.isDigit = true) :
      ReadsAs line (whole ++ '.' :: fraction)
        (.token (.float (Float.ofScientific (Nat.ofDigitChars 10 (whole ++ fraction) 0) true
          fraction.length)) line)
  | reserved {word : List Char} {t : Token} (h : (String.ofList word, t) ∈ reservedWords) :
      ReadsAs line word (.token t line)
  | name {first : Char} {others : List Char} (hfirst : isLetter first = true)
      (hothers : ∀ c ∈ others, isWordChar c = true)
      (h : ∀ t, (String.ofList (first :: others), t) ∉ reservedWords) :
      ReadsAs line (first :: others) (.token (.name (String.ofList (first :: others))) line)
  | mark (m : Mark) : ReadsAs line [m.char] (.token (.mark m) line)

theorem ofWord_of_reserved {s : String} {t : Token} (h : (s, t) ∈ reservedWords) :
    Token.ofWord s = t := by
  simp only [reservedWords, List.mem_cons, Prod.mk.injEq, List.not_mem_nil, or_false] at h
  rcases h with ⟨rfl, rfl⟩ | ⟨rfl, rfl⟩ | ⟨rfl, rfl⟩ | ⟨rfl, rfl⟩ | ⟨rfl, rfl⟩ <;> decide

theorem ofWord_of_not_reserved {s : String} (h : ∀ t, (s, t) ∉ reservedWords) :
    Token.ofWord s = .name s := by
  simp only [reservedWords, List.mem_cons, Prod.mk.injEq, List.not_mem_nil, or_false, not_or,
    not_and] at h
  unfold Token.ofWord
  grind

theorem ne_name_of_reserved {s s' : String} {t : Token} (h : (s, t) ∈ reservedWords) :
    t ≠ .name s' := by
  simp only [reservedWords, List.mem_cons, Prod.mk.injEq, List.not_mem_nil, or_false] at h
  rintro rfl
  simp at h

theorem isLetter_of_reserved {c : Char} {u : List Char} {t : Token}
    (h : (String.ofList (c :: u), t) ∈ reservedWords) : isLetter c = true := by
  have hall : ∀ entry ∈ reservedWords, entry.1.toList.head?.any isLetter = true := by decide
  have hhead := hall _ h
  rwa [String.toList_ofList] at hhead

theorem ReadsAs.of_reserved {line : Nat} {word : List Char} {r : Reading} {t : Token}
    (h : ReadsAs line word r) (hreserved : (String.ofList word, t) ∈ reservedWords) :
    r = .token t line := by
  have hdigit {c : Char} {u : List Char} (hword : word = c :: u) : c.isDigit = false := by
    subst hword
    rw [← Bool.not_eq_true]
    intro hc
    exact absurd (isLetter_of_reserved hreserved) (by simp [isLetter_of_isDigit hc])
  have hnumber {run tail : List Char} (hne : run ≠ []) (hword : word = run ++ tail) :
      ¬ ∀ c ∈ run, c.isDigit = true := by
    obtain ⟨c, u, rfl⟩ := List.exists_cons_of_ne_nil hne
    intro hrun
    exact absurd (hrun c List.mem_cons_self) (by simp [hdigit hword])
  cases h with
  | integer hne hrun => exact absurd hrun (hnumber hne (List.append_nil _).symm)
  | tooLarge hne hrun => exact absurd hrun (hnumber hne (List.append_nil _).symm)
  | decimal hne hwhole => exact absurd hwhole (hnumber hne rfl)
  | reserved h => rw [← ofWord_of_reserved h, ← ofWord_of_reserved hreserved]
  | name _ _ h => exact absurd hreserved (h t)
  | mark m => exact absurd (isLetter_of_reserved hreserved) (by simp [isLetter_mark])

/-- A reserved word whose end is seen one byte too late to tell it from the start of a name: the next
character has its first byte in common with one with which the word would go on. -/
def EndsLate (word rest : List Char) : Prop :=
  (∃ t, (String.ofList word, t) ∈ reservedWords) ∧
    ∃ c ∈ rest.head?, ∃ d, isWordChar d = true ∧ StartAlike d c

theorem any_startsLikeWordChar_iff {rest : List Char} :
    rest.head?.any startsLikeWordChar = true ↔
      ∃ c ∈ rest.head?, ∃ d, isWordChar d = true ∧ StartAlike d c := by
  simp only [Option.any_eq_true, startsLikeWordChar_iff, Option.mem_def]

theorem not_endsLate {c : Char} {u rest : List Char} (hc : isLetter c = false) :
    ¬ EndsLate (c :: u) rest := by
  rintro ⟨⟨t, ht⟩, -⟩
  exact absurd (isLetter_of_reserved ht) (by simp [hc])

theorem readsAs_word {c : Char} {u : List Char} (line : Nat) (hc : isLetter c = true)
    (hu : ∀ d ∈ u, isWordChar d = true) :
    ReadsAs line (c :: u) (.token (Token.ofWord (String.ofList (c :: u))) line) := by
  by_cases hreserved : ∃ t, (String.ofList (c :: u), t) ∈ reservedWords
  · obtain ⟨t, ht⟩ := hreserved
    rw [ofWord_of_reserved ht]
    exact .reserved ht
  · have hname : ∀ t, (String.ofList (c :: u), t) ∉ reservedWords := fun t ht => hreserved ⟨t, ht⟩
    rw [ofWord_of_not_reserved hname]
    exact .name hc hu hname

/-- A token is read as its pattern says, except for a reserved word that ends late. -/
theorem SplitForm.readsAs {c : Char} {cs : List Char} {r : Lexeme × List Char}
    (h : SplitForm c cs r) (hpattern : Pattern r.1.spelling) (line column : Nat) :
    (¬ EndsLate r.1.spelling r.2 → ReadsAs line r.1.spelling (r.1.reading line column)) ∧
    (EndsLate r.1.spelling r.2 →
      r.1.reading line column = .token (.name (String.ofList r.1.spelling)) line) := by
  have hdigits : ∀ cs : List Char, ∀ d ∈ cs.takeWhile Char.isDigit, d.isDigit = true :=
    fun cs => List.all_eq_true.mp List.all_takeWhile
  cases h with
  | @decimal rest hc hpoint =>
    refine ⟨fun _ => ?_, fun hlate => absurd hlate (not_endsLate (isLetter_of_isDigit hc))⟩
    exact .decimal (List.cons_ne_nil _ _) (List.forall_mem_cons.mpr ⟨hc, hdigits cs⟩) (hdigits rest)
  | digits hc hpoint =>
    refine ⟨fun _ => ?_, fun hlate => absurd hlate (not_endsLate (isLetter_of_isDigit hc))⟩
    have hrun : ∀ d ∈ c :: cs.takeWhile Char.isDigit, d.isDigit = true :=
      List.forall_mem_cons.mpr ⟨hc, hdigits cs⟩
    simp only [Lexeme.reading]
    split
    · rename_i hle
      exact .integer (List.cons_ne_nil _ _) hrun hle
    · rename_i hgt
      exact .tooLarge (List.cons_ne_nil _ _) hrun (Nat.lt_of_not_le hgt)
  | word hc =>
    have hothers : ∀ d ∈ cs.takeWhile isWordChar, isWordChar d = true :=
      List.all_eq_true.mp List.all_takeWhile
    rw [Lexeme.spelling_ofWord]
    unfold Lexeme.ofWord
    split
    · rename_i hfollows
      refine ⟨fun hlate => ?_, fun _ => rfl⟩
      rw [any_startsLikeWordChar_iff] at hfollows
      exact .name hc hothers fun t ht => hlate ⟨⟨t, ht⟩, hfollows⟩
    · rename_i hfollows
      rw [any_startsLikeWordChar_iff] at hfollows
      exact ⟨fun _ => readsAs_word line hc hothers, fun hlate => absurd hlate.2 hfollows⟩
  | @mark m hm =>
    refine ⟨fun _ => .mark m, fun hlate => absurd hlate (not_endsLate (isLetter_mark m))⟩
  | stray hdigit hletter hmark => exact absurd hpattern (not_pattern hdigit hletter hmark)

theorem Pattern.newline_not_mem {word : List Char} (h : Pattern word) : '\n' ∉ word := by
  intro hmem
  cases h with
  | integer _ hrun => exact absurd (hrun _ hmem) (by decide)
  | decimal _ hwhole hfraction =>
    rcases List.mem_append.mp hmem with hmem | hmem
    · exact absurd (hwhole _ hmem) (by decide)
    · rcases List.mem_cons.mp hmem with hpoint | hmem
      · exact absurd hpoint (by decide)
      · exact absurd (hfraction _ hmem) (by decide)
  | word hfirst hothers =>
    rcases List.mem_cons.mp hmem with rfl | hmem
    · exact absurd hfirst (by decide)
    · exact absurd (hothers _ hmem) (by decide)
  | mark m =>
    have hchar := List.mem_singleton.mp hmem
    cases m <;> exact absurd hchar (by decide)

end Primer.Lexing
