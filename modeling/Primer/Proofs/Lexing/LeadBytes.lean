import Primer.Lexeme

/-! # Characters that start alike

A character may start like one of a word without being one: its encoding in UTF-8 has the same first
byte. The tables of letters and digits are enough to tell, because the characters with one first byte
follow each other. Either the whole of them lies within a range of the table, or the range begins or
ends among them.
-/
namespace Primer.Lexing
open Text

/-- The encodings of the characters have the same first byte. -/
def StartAlike (c d : Char) : Prop :=
  (String.utf8EncodeChar c).head? = (String.utf8EncodeChar d).head?

instance (c d : Char) : Decidable (StartAlike c d) :=
  inferInstanceAs (Decidable ((String.utf8EncodeChar c).head? = (String.utf8EncodeChar d).head?))

theorem leadByte_lt (c : Char) : leadByte c.toNat < 256 := by
  have hvalid : c.toNat.isValidChar := c.valid
  unfold Nat.isValidChar at hvalid
  unfold leadByte
  repeat' split
  all_goals omega

theorem head?_utf8EncodeChar (c : Char) :
    (String.utf8EncodeChar c).head? = some (UInt8.ofNat (leadByte c.toNat)) := by
  have hvalid : c.val.toNat.isValidChar := c.valid
  unfold Nat.isValidChar at hvalid
  simp only [String.utf8EncodeChar, leadByte, Char.toNat]
  repeat' split
  all_goals first | omega | refine congrArg (fun byte => some (UInt8.ofNat byte)) ?_
  all_goals omega

theorem startAlike_iff {c d : Char} : StartAlike c d ↔ leadByte c.toNat = leadByte d.toNat := by
  rw [StartAlike, head?_utf8EncodeChar, head?_utf8EncodeChar, Option.some_inj]
  constructor
  · intro h
    have hnat := congrArg UInt8.toNat h
    rwa [UInt8.toNat_ofNat_of_lt' (leadByte_lt c), UInt8.toNat_ofNat_of_lt' (leadByte_lt d)] at hnat
  · intro h
    rw [h]

theorem exists_mem_of_startsInClass {ranges : List CodeRange} {byte : Nat}
    (h : startsInClass ranges byte = true) :
    ∃ r ∈ ranges, leadByte r.first ≤ byte ∧ byte ≤ leadByte r.last := by
  induction ranges with
  | nil => cases h
  | cons r ranges ih =>
    unfold startsInClass at h
    split at h
    · cases h
    · rename_i hfirst
      split at h
      · rename_i hlast
        exact ⟨r, List.mem_cons_self, Nat.le_of_not_lt hfirst, hlast⟩
      · obtain ⟨s, hs, hbounds⟩ := ih h
        exact ⟨s, List.mem_cons_of_mem r hs, hbounds⟩

/-- Each range goes from a character to one that is not in front of it. -/
def boundedByChars (ranges : List CodeRange) : Bool :=
  ranges.all fun r => decide (r.first ≤ r.last ∧ r.first.isValidChar ∧ r.last.isValidChar)

theorem boundedByChars_letterRanges : boundedByChars letterRanges = true := by decide +kernel

theorem boundedByChars_decimalDigitRanges : boundedByChars decimalDigitRanges = true := by
  decide +kernel

/-- A range with a character that starts alike has one of the class: the character itself, or else
the end of the range that is nearer to it. -/
theorem exists_startAlike {r : CodeRange} {c : Char} (hle : r.first ≤ r.last)
    (hfirst : r.first.isValidChar) (hlast : r.last.isValidChar)
    (hbyte : leadByte r.first ≤ leadByte c.toNat) (hbyte' : leadByte c.toNat ≤ leadByte r.last) :
    ∃ d : Char, r.first ≤ d.toNat ∧ d.toNat ≤ r.last ∧ StartAlike d c := by
  simp only [startAlike_iff]
  rcases Nat.lt_or_ge c.toNat r.first with hlt | hge
  · refine ⟨Char.ofNatAux r.first hfirst, ?_⟩
    change r.first ≤ r.first ∧ r.first ≤ r.last ∧ leadByte r.first = leadByte c.toNat
    exact ⟨Nat.le_refl _, hle, Nat.le_antisymm hbyte (leadByte_mono (Nat.le_of_lt hlt))⟩
  · rcases Nat.lt_or_ge r.last c.toNat with hgt | hle'
    · refine ⟨Char.ofNatAux r.last hlast, ?_⟩
      change r.first ≤ r.last ∧ r.last ≤ r.last ∧ leadByte r.last = leadByte c.toNat
      exact ⟨hle, Nat.le_refl _, Nat.le_antisymm (leadByte_mono (Nat.le_of_lt hgt)) hbyte'⟩
    · exact ⟨c, hge, hle', rfl⟩

theorem startsInClass_iff {ranges : List CodeRange} (hascending : ascending ranges = true)
    (hchars : boundedByChars ranges = true) {c : Char} :
    startsInClass ranges (leadByte c.toNat) = true ↔
      ∃ d : Char, inClass ranges d.toNat = true ∧ StartAlike d c := by
  constructor
  · intro h
    obtain ⟨r, hr, hbyte, hbyte'⟩ := exists_mem_of_startsInClass h
    obtain ⟨hle, hfirst, hlast⟩ := of_decide_eq_true (List.all_eq_true.mp hchars r hr)
    obtain ⟨d, hd, hd', halike⟩ := exists_startAlike hle hfirst hlast hbyte hbyte'
    exact ⟨d, (inClass_iff hascending).mpr ⟨r, hr, hd, hd'⟩, halike⟩
  · rintro ⟨d, hd, halike⟩
    rw [← startAlike_iff.mp halike]
    exact startsInClass_of_inClass hd

theorem startAlike_underscore_iff {c : Char} : StartAlike '_' c ↔ c = '_' := by
  constructor
  · intro h
    have hbyte := startAlike_iff.mp h
    have hcode : c.toNat = 0x5F := by
      change 0x5F = leadByte c.toNat at hbyte
      unfold leadByte at hbyte
      repeat' split at hbyte
      all_goals omega
    exact Char.toNat_inj.mp hcode
  · rintro rfl
    rfl

theorem startsLikeWordChar_iff {c : Char} :
    startsLikeWordChar c = true ↔ ∃ d, isWordChar d = true ∧ StartAlike d c := by
  simp only [startsLikeWordChar, isWordChar, Bool.or_eq_true, beq_iff_eq, or_and_right, exists_or,
    startsInClass_iff ascending_letterRanges boundedByChars_letterRanges,
    startsInClass_iff ascending_decimalDigitRanges boundedByChars_decimalDigitRanges,
    exists_eq_left, startAlike_underscore_iff, isLetter, isDecimalDigit]

end Primer.Lexing
