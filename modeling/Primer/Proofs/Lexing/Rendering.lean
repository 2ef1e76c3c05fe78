import Mathlib.Data.List.Chain
import Primer.Proofs.Lexing.Spelling

/-! # Writing a text from its lexemes

Lexemes are written one behind the other, with blanks and comments between them as one likes. Nothing
has to stand between two of them, unless the right one would be read as a part of the left one. Such
a text is read back token by token, and each token stands on the line where its lexeme was written.
A reserved word is recognised only if no blank outside of ASCII follows it directly.
-/
namespace Primer.Lexing
open Text

/-- Blanks and comments, each comment together with the line break that ends it. -/
inductive Gap : List Char → Prop
  | nil : Gap []
  | blank {c : Char} {u : List Char} (hc : isBlank c = true) (hu : Gap u) : Gap (c :: u)
  | comment {body u : List Char} (hbody : '\n' ∉ body) (hu : Gap u) :
      Gap ('#' :: (body ++ '\n' :: u))

theorem Gap.starts {c : Char} {u : List Char} (h : Gap (c :: u)) : isBlank c = true ∨ c = '#' := by
  cases h with
  | blank hc => exact .inl hc
  | comment => exact .inr rfl

theorem skip_comment {body : List Char} (h : '\n' ∉ body) (rest : List Char) (line column : Nat) :
    Cursor.skip true line column (body ++ '\n' :: rest) = Cursor.skip false (line + 1) 1 rest := by
  induction body generalizing column with
  | nil => rw [List.nil_append, Cursor.skip, if_pos rfl]
  | cons c body ih =>
    have hc : c ≠ '\n' := fun hc => h (hc ▸ List.mem_cons_self)
    have hbody : '\n' ∉ body := fun hmem => h (List.mem_cons_of_mem _ hmem)
    rw [List.cons_append, Cursor.skip, if_neg hc, if_pos (Bool.true_or _)]
    exact ih hbody (column + 1)

theorem Gap.skip_append {u : List Char} (h : Gap u) (rest : List Char) (line column : Nat) :
    ∃ column', Cursor.skip false line column (u ++ rest) =
      Cursor.skip false (line + u.count '\n') column' rest := by
  induction h generalizing line column with
  | nil => exact ⟨column, rfl⟩
  | @blank c u hc _ ih =>
    by_cases hnewline : c = '\n'
    · obtain ⟨column', hskip⟩ := ih (line + 1) 1
      have hcount : line + (c :: u).count '\n' = line + 1 + u.count '\n' := by
        rw [hnewline, List.count_cons_self]
        omega
      refine ⟨column', ?_⟩
      rw [List.cons_append, Cursor.skip, if_pos hnewline, hskip, hcount]
    · obtain ⟨column', hskip⟩ := ih line (column + 1)
      have hcount : (c :: u).count '\n' = u.count '\n' := List.count_cons_of_ne hnewline
      refine ⟨column', ?_⟩
      rw [List.cons_append, Cursor.skip, if_neg hnewline, if_pos (by simp [hc]), hskip, hcount]
  | @comment body u hbody _ ih =>
    obtain ⟨column', hskip⟩ := ih (line + 1) 1
    have hcount : line + ('#' :: (body ++ '\n' :: u)).count '\n' = line + 1 + u.count '\n' := by
      rw [List.count_cons_of_ne (by decide), List.count_append, List.count_eq_zero.mpr hbody,
        List.count_cons_self]
      omega
    refine ⟨column', ?_⟩
    rw [List.cons_append, List.append_assoc, List.cons_append, Cursor.skip, if_neg (by decide),
      if_neg (by decide), if_pos rfl, skip_comment hbody, hskip, hcount]

theorem Gap.ofCursor_append {u : List Char} (h : Gap u) (before rest : List Char) (column : Nat) :
    ∃ column', TokenStream.ofCursor ⟨u ++ rest, lineAfter before, column⟩ =
      TokenStream.ofCursor ⟨rest, lineAfter (before ++ u), column'⟩ := by
  obtain ⟨column', hskip⟩ := h.skip_append rest (lineAfter before) column
  have hline : lineAfter (before ++ u) = lineAfter before + u.count '\n' := by
    simp only [lineAfter, List.count_append]
    omega
  refine ⟨column', ofCursor_congr ?_⟩
  rw [hline]
  exact hskip

/-- The lexemes of the language, and the tokens that they stand for. -/
inductive Spelled : Lexeme → Token → Prop
  | reserved {word : String} {t : Token} (h : (word, t) ∈ reservedWords) :
      Spelled (.word word.toList) t
  | name {name : String} (h : IsIdentifier name) : Spelled (.word name.toList) (.name name)
  | integer {run : List Char} (hne : run ≠ []) (hrun : ∀ c ∈ run, c.isDigit = true)
      (hle : Nat.ofDigitChars 10 run 0 ≤ 9223372036854775807) :
      Spelled (.digits run) (.int (Int64.ofNat (Nat.ofDigitChars 10 run 0)))
  | decimal {whole fraction : List Char} (hne : whole ≠ [])
      (hwhole : ∀ c ∈ whole, c.isDigit = true) (hfraction : ∀ c ∈ fraction, c.isDigit = true) :
      Spelled (.decimal whole fraction)
        (.float (Float.ofScientific (Nat.ofDigitChars 10 (whole ++ fraction) 0) true
          fraction.length))
  | mark (m : Mark) : Spelled (.mark m) (.mark m)

theorem isWord_of_reserved {word : String} {t : Token} (h : (word, t) ∈ reservedWords) :
    isWord word.toList = true := by
  have hall : ∀ entry ∈ reservedWords, isWord entry.1.toList = true := by decide
  exact hall _ h

theorem Spelled.writes {l : Lexeme} {t : Token} (h : Spelled l t) : Writes l t := by
  cases h with
  | reserved h => exact writes_word (isWord_of_reserved h) (ofWord_of_reserved h)
  | name h => exact h.writes
  | integer hne hrun hle =>
    refine ⟨.digits hne hrun, fun line column => ?_⟩
    rw [Lexeme.reading]
    exact if_pos hle
  | decimal hne hwhole hfraction => exact ⟨.decimal hne hwhole hfraction, fun _ _ => rfl⟩
  | mark m => exact writes_mark m

theorem Writable.pattern {l : Lexeme} (h : Writable l) : Pattern l.spelling := by
  cases h with
  | digits hne hrun => exact .integer hne hrun
  | decimal hne hwhole hfraction => exact .decimal hne hwhole hfraction
  | word hfirst hothers => exact .word hfirst hothers
  | mark m => exact .mark m

/-- With nothing between them, the start of the right lexeme would be read as a part of the left. -/
def glues : Lexeme → Lexeme → Bool
  | .word _, .word _ | .word _, .digits _ | .word _, .decimal .. => true
  | .digits _, .digits _ | .digits _, .decimal .. | .digits _, .mark .dot => true
  | .decimal .., .digits _ | .decimal .., .decimal .. => true
  | _, _ => false

theorem startsLikeWordChar_mark (m : Mark) : startsLikeWordChar m.char = false := by
  cases m <;> decide +kernel

theorem goesOn_of_not_glues {l m : Lexeme} (hm : Writable m) (h : glues l m = false) {c : Char}
    (hc : c ∈ m.spelling.head?) : goesOn l c = false := by
  cases hm with
  | digits => cases l <;> first | rfl | cases h
  | decimal => cases l <;> first | rfl | cases h
  | @word first others hfirst hothers =>
    obtain rfl : first = c := Option.some.inj hc
    have hdigit : first.isDigit = false := by
      rw [← Bool.not_eq_true]
      intro hdigit
      rw [isLetter_of_isDigit hdigit] at hfirst
      cases hfirst
    have hpoint : first ≠ '.' := by
      rintro rfl
      exact absurd hfirst (by decide)
    cases l with
    | digits => simp [goesOn, hdigit, hpoint]
    | decimal => exact hdigit
    | word => cases h
    | _ => rfl
  | mark k =>
    obtain rfl := Option.mem_some_iff.mp hc
    cases l with
    | digits =>
      have hpoint : k.char ≠ '.' := by
        cases k with
        | dot => cases h
        | _ => decide
      simp [goesOn, isDigit_mark, hpoint]
    | decimal => exact isDigit_mark k
    | word => exact startsLikeWordChar_mark k
    | _ => rfl

theorem startsLikeWordChar_of_isBlank {c : Char} (h : isBlank c = true) :
    startsLikeWordChar c = decide (0x80 ≤ c.toNat) := by
  have hall : ∀ r ∈ blankRanges, ∀ code ∈ List.range' r.first (r.last + 1 - r.first),
      (startsInClass letterRanges (leadByte code) ||
        startsInClass decimalDigitRanges (leadByte code)) = decide (0x80 ≤ code) := by
    decide +kernel
  obtain ⟨r, hr, hfirst, hlast⟩ := (inClass_iff ascending_blankRanges).mp h
  have hcode : c.toNat ∈ List.range' r.first (r.last + 1 - r.first) := by
    rw [List.mem_range'_1]
    omega
  have hunderscore : (c == '_') = false := by
    rw [beq_eq_false_iff_ne]
    rintro rfl
    exact absurd h (by decide)
  rw [startsLikeWordChar, hunderscore, Bool.or_false]
  exact hall r hr _ hcode

/-- The only gaps with which a lexeme seems to go on are those with a blank outside of ASCII behind
a word. -/
theorem goesOn_of_gap {l : Lexeme} {c : Char} (hc : isBlank c = true ∨ c = '#')
    (h : goesOn l c = true) : (∃ chars, l = .word chars) ∧ isBlank c = true ∧ 0x80 ≤ c.toNat := by
  have hdigit : c.isDigit = false := by
    rw [← Bool.not_eq_true]
    intro hdigit
    rcases hc with hc | rfl
    · rw [isBlank_of_isDigit hdigit] at hc
      cases hc
    · exact absurd hdigit (by decide)
  have hpoint : c ≠ '.' := by
    rintro rfl
    rcases hc with hc | hc
    · exact absurd hc (by decide)
    · exact absurd hc (by decide)
  cases l with
  | digits => simp [goesOn, hdigit, hpoint] at h
  | decimal => simp [goesOn, hdigit] at h
  | word chars =>
    have hlike : startsLikeWordChar c = true := h
    rcases hc with hc | rfl
    · rw [startsLikeWordChar_of_isBlank hc] at hlike
      exact ⟨⟨chars, rfl⟩, hc, of_decide_eq_true hlike⟩
    · exact absurd hlike (by decide +kernel)
  | _ => cases h

theorem next_of_late {chars : List Char} (h : Writable (.word chars)) {c : Char}
    (hblank : isBlank c = true) (hcode : 0x80 ≤ c.toNat) (rest : List Char) (line column : Nat) :
    Cursor.next ⟨chars ++ c :: rest, line, column⟩ =
      (.token (.name (String.ofList chars)) line, ⟨c :: rest, line, column + chars.length⟩) := by
  obtain ⟨first, others, rfl⟩ : ∃ first others, chars = first :: others := by
    cases h
    exact ⟨_, _, rfl⟩
  obtain ⟨hstart, hcomment⟩ := h.starts rfl
  cases h with
  | word hfirst hothers =>
    have hstop : ∀ d ∈ (c :: rest).head?, isWordChar d = false := by
      rintro _ ⟨⟩
      rw [← Bool.not_eq_true]
      intro hword
      rw [isBlank_of_isWordChar hword] at hblank
      cases hblank
    have hlike : startsLikeWordChar c = true := by
      rw [startsLikeWordChar_of_isBlank hblank]
      exact decide_eq_true hcode
    have hname : Lexeme.ofWord (first :: others) (c :: rest) = .name (first :: others) := by
      simp [Lexeme.ofWord, hlike]
    have hsplit := split_word hfirst hothers hstop
    rw [hname] at hsplit
    exact next_of_split hstart hcomment hsplit line column

def isReserved : Lexeme → Bool
  | .word chars => decide (String.ofList chars ∈ reservedWords.map Prod.fst)
  | _ => false

theorem Spelled.eq_name {chars : List Char} {t : Token} (h : Spelled (.word chars) t)
    (hreserved : isReserved (.word chars) = false) : t = .name (String.ofList chars) := by
  generalize hl : Lexeme.word chars = l at h
  cases h with
  | @reserved word t h =>
    cases hl
    have hmem : word ∈ reservedWords.map Prod.fst := List.mem_map.mpr ⟨_, h, rfl⟩
    simp [isReserved, hmem] at hreserved
  | name =>
    cases hl
    rw [String.ofList_toList]
  | _ => cases hl

/-- A lexeme of a text, and what stands between it and the next one. -/
structure Piece where
  lexeme : Lexeme
  token : Token
  spelled : Spelled lexeme token
  gap : List Char
  isGap : Gap gap

namespace Piece

def text (p : Piece) : List Char := p.lexeme.spelling ++ p.gap

/-- The lexeme is a reserved word, and a blank outside of ASCII follows it directly. -/
def late (p : Piece) : Bool :=
  isReserved p.lexeme && p.gap.head?.any fun c => decide (0x80 ≤ c.toNat)

def read (p : Piece) : Token :=
  if p.late then .name (String.ofList p.lexeme.spelling) else p.token

theorem endsBefore_or_late (p : Piece) {rest : List Char}
    (hrest : p.gap = [] → EndsBefore p.lexeme rest) :
    EndsBefore p.lexeme (p.gap ++ rest) ∨ ∃ chars c u, p.lexeme = .word chars ∧ p.gap = c :: u ∧
      isBlank c = true ∧ 0x80 ≤ c.toNat := by
  cases hgap : p.gap with
  | nil => exact .inl (hrest hgap)
  | cons c u =>
    by_cases hgoes : goesOn p.lexeme c = true
    · obtain ⟨⟨chars, hword⟩, hblank, hcode⟩ := goesOn_of_gap (hgap ▸ p.isGap).starts hgoes
      exact .inr ⟨chars, c, u, hword, rfl, hblank, hcode⟩
    · refine .inl ?_
      rintro _ ⟨⟩
      exact Bool.eq_false_iff.mpr hgoes

theorem read_of_endsBefore {p : Piece} {rest : List Char}
    (h : EndsBefore p.lexeme (p.gap ++ rest)) : p.read = p.token := by
  refine if_neg fun hlate => ?_
  obtain ⟨hreserved, hcode⟩ := Bool.and_eq_true_iff.mp hlate
  obtain ⟨chars, hword⟩ : ∃ chars, p.lexeme = .word chars := by
    cases hlexeme : p.lexeme with
    | word chars => exact ⟨chars, rfl⟩
    | _ =>
      rw [hlexeme] at hreserved
      cases hreserved
  have hgap := p.isGap
  cases hu : p.gap with
  | nil =>
    rw [hu] at hcode
    cases hcode
  | cons c u =>
    rw [hword, hu] at h
    rw [hu] at hgap hcode
    have hcode : 0x80 ≤ c.toNat := of_decide_eq_true hcode
    have hends : startsLikeWordChar c = false := h c rfl
    rcases hgap.starts with hblank | rfl
    · rw [startsLikeWordChar_of_isBlank hblank] at hends
      exact of_decide_eq_false hends hcode
    · exact absurd hcode (by decide)

theorem read_of_late {p : Piece} {chars u : List Char} {c : Char} (hword : p.lexeme = .word chars)
    (hgap : p.gap = c :: u) (hcode : 0x80 ≤ c.toNat) : p.read = .name (String.ofList chars) := by
  by_cases hreserved : isReserved p.lexeme = true
  · have hlate : p.late = true := by simp [late, hreserved, hgap, hcode]
    rw [read, if_pos hlate, hword]
    rfl
  · have hlate : ¬ p.late = true := by simp [late, hreserved]
    rw [read, if_neg hlate]
    have hspelled := p.spelled
    rw [hword] at hspelled hreserved
    exact hspelled.eq_name (Bool.eq_false_iff.mpr hreserved)

theorem next_eq (p : Piece) {rest : List Char} (hrest : p.gap = [] → EndsBefore p.lexeme rest)
    (line column : Nat) :
    Cursor.next ⟨p.lexeme.spelling ++ (p.gap ++ rest), line, column⟩ =
      (.token p.read line, ⟨p.gap ++ rest, line, column + p.lexeme.spelling.length⟩) := by
  have hwrites := p.spelled.writes
  rcases p.endsBefore_or_late hrest with hends | ⟨chars, c, u, hword, hgap, hblank, hcode⟩
  · rw [hwrites.writable.next_eq hends, hwrites.reading_eq, read_of_endsBefore hends]
  · have hwritable := hwrites.writable
    rw [hword] at hwritable
    rw [read_of_late hword hgap hcode, hword, hgap]
    exact next_of_late hwritable hblank hcode (u ++ rest) line column

end Piece

/-- The tokens of the pieces, each on the line where it stands behind the text before it. -/
def located (before : List Char) : List Piece → List Located
  | [] => []
  | p :: others => ⟨p.read, lineAfter before⟩ :: located (before ++ p.text) others

/-- Nothing has to stand between the two pieces, or something does. -/
def Apart (p q : Piece) : Prop := p.gap = [] → glues p.lexeme q.lexeme = false

theorem endsBefore_pieces {p : Piece} {others : List Piece} (h : (p :: others).IsChain Apart)
    (hgap : p.gap = []) : EndsBefore p.lexeme (others.flatMap Piece.text) := by
  cases others with
  | nil => exact fun _ hc => nomatch hc
  | cons q others =>
    have hapart : Apart p q := (List.isChain_cons_cons.mp h).1
    have hq := q.spelled.writes.writable
    obtain ⟨d, u, hspelling⟩ := List.exists_cons_of_ne_nil hq.pattern.ne_nil
    intro c hc
    refine goesOn_of_not_glues hq (hapart hgap) ?_
    rw [List.flatMap_cons, Piece.text, hspelling] at hc
    rw [hspelling]
    exact hc

/-- Reading goes from piece to piece, and the line keeps up with the text that has been passed. -/
theorem ofCursor_pieces {pieces : List Piece} (h : pieces.IsChain Apart) (before : List Char)
    (column : Nat) :
    TokenStream.ofCursor ⟨pieces.flatMap Piece.text, lineAfter before, column⟩ =
      ⟨located before pieces, .finish (lineAfter (before ++ pieces.flatMap Piece.text))⟩ := by
  induction pieces generalizing before column with
  | nil =>
    rw [List.flatMap_nil, List.append_nil, located]
    exact TokenStream.ofCursor_of_finish rfl
  | cons p others ih =>
    have hnext := p.next_eq (endsBefore_pieces h) (lineAfter before) column
    have hspelling := p.spelled.writes.writable.pattern.newline_not_mem
    obtain ⟨column', hgap⟩ := p.isGap.ofCursor_append (before ++ p.lexeme.spelling)
      (others.flatMap Piece.text) (column + p.lexeme.spelling.length)
    rw [lineAfter_append before hspelling, List.append_assoc] at hgap
    have hothers := ih (List.IsChain.tail h) (before ++ p.text) column'
    rw [List.flatMap_cons, located, Piece.text, List.append_assoc,
      TokenStream.ofCursor_of_token hnext, hgap]
    rw [Piece.text] at hothers
    rw [hothers, List.append_assoc, List.append_assoc]

theorem map_token_located {pieces : List Piece} (h : ∀ p ∈ pieces, p.late = false)
    (before : List Char) : (located before pieces).map (·.token) = pieces.map (·.token) := by
  induction pieces generalizing before with
  | nil => rfl
  | cons p others ih =>
    obtain ⟨hp, hothers⟩ := List.forall_mem_cons.mp h
    have hread : p.read = p.token := if_neg (by simp [hp])
    rw [located, List.map_cons, List.map_cons, ih hothers, hread]

structure Rendering where
  start : List Char
  isGap : Gap start
  pieces : List Piece
  apart : pieces.IsChain Apart

def Rendering.text (r : Rendering) : String :=
  String.ofList (r.start ++ r.pieces.flatMap Piece.text)

/-- A text that is written from lexemes is read back as their tokens, each on the line on which it was
written. The exception are the reserved words in front of a blank outside of ASCII, which are read as
names. -/
theorem toTokenList_of_rendering (r : Rendering) :
    (TokenStream.ofString r.text).toTokenList =
      .ok ⟨located r.start r.pieces, lineAfter r.text.toList⟩ ∧
    ((∀ p ∈ r.pieces, p.late = false) →
      (located r.start r.pieces).map (·.token) = r.pieces.map (·.token)) := by
  refine ⟨?_, fun h => map_token_located h r.start⟩
  obtain ⟨column, hstart⟩ := r.isGap.ofCursor_append [] (r.pieces.flatMap Piece.text) 1
  have hpieces := ofCursor_pieces r.apart r.start column
  have htext : r.text.toList = r.start ++ r.pieces.flatMap Piece.text := String.toList_ofList
  have hstream : TokenStream.ofString r.text =
      ⟨located r.start r.pieces, .finish (lineAfter r.text.toList)⟩ := by
    rw [htext, ← hpieces, TokenStream.ofString, Cursor.ofString, htext]
    exact hstart
  rw [hstream]
  rfl

/-- Numbers, names and points may stand close together, and a comment counts for its line. -/
theorem toTokenList_of_rendering_close_together :
    (TokenStream.ofString "3x#c\n3.5.main").toTokenList =
      .ok ⟨[⟨.int 3, 1⟩, ⟨.name "x", 1⟩, ⟨.float 3.5, 2⟩, ⟨.mark .dot, 2⟩, ⟨.keyword .main, 2⟩], 2⟩ := by
  have hthree : ∀ c ∈ ['3'], c.isDigit = true := List.forall_mem_singleton.mpr rfl
  have hfive : ∀ c ∈ ['5'], c.isDigit = true := List.forall_mem_singleton.mpr rfl
  let pieces : List Piece :=
    [⟨.digits ['3'], .int 3, .integer (List.cons_ne_nil _ _) hthree (by decide), [], .nil⟩,
     ⟨.word "x".toList, .name "x", .name ⟨by decide, by decide⟩, ['#', 'c', '\n'],
      @Gap.comment ['c'] [] (by decide) .nil⟩,
     ⟨.decimal ['3'] ['5'], .float 3.5, .decimal (List.cons_ne_nil _ _) hthree hfive, [], .nil⟩,
     ⟨.mark .dot, .mark .dot, .mark .dot, [], .nil⟩,
     ⟨.word "main".toList, .keyword .main, .reserved List.mem_cons_self, [], .nil⟩]
  have happart : pieces.IsChain Apart :=
    .cons_cons (fun _ => rfl) (.cons_cons (fun h => nomatch h) (.cons_cons (fun _ => rfl)
      (.cons_cons (fun _ => rfl) (.singleton _))))
  let r : Rendering := ⟨[], .nil, pieces, happart⟩
  have htext : r.text = "3x#c\n3.5.main" := rfl
  have htokens : located r.start r.pieces = [⟨.int 3, 1⟩, ⟨.name "x", 1⟩, ⟨.float 3.5, 2⟩,
      ⟨.mark .dot, 2⟩, ⟨.keyword .main, 2⟩] := rfl
  obtain ⟨hread, -⟩ := toTokenList_of_rendering r
  rw [htext, htokens] at hread
  exact hread

/-- The keyword in front of a no-break space comes back as a name. -/
theorem name_of_main_before_no_break_space :
    ∃ r : Rendering, r.text = "main\u00a0" ∧ r.pieces.map (·.token) = [.keyword .main] ∧
      (TokenStream.ofString r.text).toTokenList = .ok ⟨[⟨.name "main", 1⟩], 1⟩ := by
  refine ⟨⟨[], .nil, [⟨.word "main".toList, .keyword .main, .reserved List.mem_cons_self, ['\u00a0'],
    .blank (by decide) .nil⟩], .singleton _⟩, rfl, rfl, ?_⟩
  exact TokenStream.toTokenList_ofString (by rfl)

end Primer.Lexing
