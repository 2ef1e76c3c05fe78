import Primer.Text.CodeRange

/-! # Lead bytes

The first byte of a character's UTF-8 encoding. Characters with the same lead byte form a block of
code points, and a reader that goes byte by byte cannot tell them apart before the next byte.
-/
namespace Primer.Text

/-- The first byte of the encoding of a code point in one, two, three or four bytes. -/
def leadByte (code : Nat) : Nat :=
  if code < 0x80 then code
  else if code < 0x800 then 0xC0 + code / 0x40
  else if code < 0x10000 then 0xE0 + code / 0x1000
  else 0xF0 + code / 0x40000

theorem leadByte_mono {a b : Nat} (h : a ≤ b) : leadByte a ≤ leadByte b := by
  unfold leadByte
  repeat' split
  all_goals omega

/-- The encoding of some character of the class starts with the byte. The lead bytes ascend with
the ranges, so that the search ends at the first range behind the byte. -/
def startsInClass : List CodeRange → Nat → Bool
  | [], _ => false
  | r :: ranges, byte =>
    if byte < leadByte r.first then false
    else if byte ≤ leadByte r.last then true
    else startsInClass ranges byte

theorem startsInClass_of_inClass {ranges : List CodeRange} {code : Nat}
    (h : inClass ranges code = true) : startsInClass ranges (leadByte code) = true := by
  induction ranges with
  | nil => simp [inClass] at h
  | cons r ranges ih =>
    unfold inClass at h
    unfold startsInClass
    split at h
    · simp at h
    · rename_i hfirst
      have hlead := leadByte_mono (Nat.le_of_not_lt hfirst)
      rw [if_neg (Nat.not_lt.mpr hlead)]
      split at h
      · rename_i hlast
        rw [if_pos (leadByte_mono hlast)]
      · split
        · rfl
        · exact ih h

end Primer.Text
