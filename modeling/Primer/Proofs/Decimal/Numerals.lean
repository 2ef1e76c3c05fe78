import Mathlib.Data.List.TakeWhile
import Mathlib.Tactic.FieldSimp
import Primer.Proofs.Decimal.Rounding
import Primer.Value

/-! # The text of a float determines it

The digits of a float can be read back as a number, whether they are laid out around a point or with
an exponent. This number rounds to the float and to no other one. So different floats are written
differently, zeros of both signs included, and no float is written like an integer.
-/
namespace Primer

/-- The number that is denoted by digits, with a point among them or without. -/
def fixedPoint (text : List Char) : ℚ :=
  let whole := text.takeWhile (· != '.')
  let fraction := (text.dropWhile (· != '.')).drop 1
  Nat.ofDigitChars 10 (whole ++ fraction) 0 / 10 ^ fraction.length

def signedNumber : List Char → Int
  | '-' :: digits => -Nat.ofDigitChars 10 digits 0
  | digits => Nat.ofDigitChars 10 digits 0

/-- The number that is denoted by digits, with an exponent behind them or without. -/
def numeral (text : List Char) : ℚ :=
  let exponent := (text.dropWhile (· != 'e')).drop 1
  fixedPoint (text.takeWhile (· != 'e')) * 10 ^ signedNumber exponent

section Numeral
variable {text whole fraction : List Char} {c : Char}

theorem bne_of_not_mem (h : c ∉ text) : ∀ a ∈ text, (a != c) = true := by
  intro a ha
  rw [bne_iff_ne]
  rintro rfl
  exact h ha

theorem takeWhile_bne (h : c ∉ text) :
    text.takeWhile (· != c) = text ∧ text.dropWhile (· != c) = [] := by
  have hne := bne_of_not_mem h
  exact ⟨List.takeWhile_eq_self_iff.mpr hne, List.dropWhile_eq_nil_iff.mpr hne⟩

theorem takeWhile_bne_append (h : c ∉ text) (rest : List Char) :
    (text ++ c :: rest).takeWhile (· != c) = text ∧
      (text ++ c :: rest).dropWhile (· != c) = c :: rest := by
  have hne := bne_of_not_mem h
  rw [List.takeWhile_append_of_pos hne, List.dropWhile_append_of_pos hne]
  simp

theorem fixedPoint_whole (h : '.' ∉ whole) : fixedPoint whole = Nat.ofDigitChars 10 whole 0 := by
  obtain ⟨htake, hdrop⟩ := takeWhile_bne h
  simp [fixedPoint, htake, hdrop]

theorem fixedPoint_append (h : '.' ∉ whole) : fixedPoint (whole ++ '.' :: fraction) =
    Nat.ofDigitChars 10 (whole ++ fraction) 0 / 10 ^ fraction.length := by
  obtain ⟨htake, hdrop⟩ := takeWhile_bne_append h fraction
  simp only [fixedPoint, htake, hdrop, List.drop_one, List.tail_cons]

theorem fixedPoint_take_drop (h : '.' ∉ text) (n : Nat) :
    fixedPoint (text.take n ++ '.' :: text.drop n) =
      Nat.ofDigitChars 10 text 0 / 10 ^ (text.length - n) := by
  rw [fixedPoint_append fun hmem => h (List.mem_of_mem_take hmem), List.take_append_drop,
    List.length_drop]

theorem not_mem_take_drop (h : c ∉ text) (hc : c ≠ '.') (n : Nat) :
    c ∉ text.take n ++ '.' :: text.drop n := by
  intro hmem
  rcases List.mem_append.mp hmem with hmem | hmem
  · exact h (List.mem_of_mem_take hmem)
  · rcases List.mem_cons.mp hmem with hmem | hmem
    · exact hc hmem
    · exact h (List.mem_of_mem_drop hmem)

theorem not_mem_toDigits {n : Nat} (hc : c.isDigit = false) : c ∉ Nat.toDigits 10 n := by
  intro h
  have hdigit := Nat.isDigit_of_mem_toDigits (by decide) (by decide) h
  rw [hc] at hdigit
  cases hdigit

theorem signedNumber_repr (n : Int) : signedNumber n.repr.toList = n := by
  rw [Int.repr_eq_if]
  split
  · rename_i hn
    rw [Nat.toList_repr]
    unfold signedNumber
    split
    · rename_i digits hdigits
      have hminus : '-' ∈ Nat.toDigits 10 n.toNat := hdigits ▸ List.mem_cons_self
      exact absurd hminus (not_mem_toDigits (by decide))
    · rw [Nat.ofDigitChars_ten_toDigits, Int.toNat_of_nonneg hn]
  · rename_i hn
    rw [String.toList_append, Nat.toList_repr]
    change -((Nat.ofDigitChars 10 (Nat.toDigits 10 (-n).toNat) 0 : Nat) : Int) = n
    rw [Nat.ofDigitChars_ten_toDigits]
    omega

theorem numeral_fixedPoint (h : 'e' ∉ text) : numeral text = fixedPoint text := by
  obtain ⟨htake, hdrop⟩ := takeWhile_bne h
  simp [numeral, htake, hdrop, signedNumber]

theorem numeral_exponent {exponent : Int} (h : 'e' ∉ text) :
    numeral (text ++ 'e' :: exponent.repr.toList) = fixedPoint text * 10 ^ exponent := by
  obtain ⟨htake, hdrop⟩ := takeWhile_bne_append h exponent.repr.toList
  simp only [numeral, htake, hdrop, List.drop_one, List.tail_cons, signedNumber_repr]

end Numeral

namespace Decimal
variable (d : Decimal)

theorem not_mem_digitChars {c : Char} (hc : c.isDigit = false) : c ∉ d.digitChars :=
  not_mem_toDigits hc

theorem ofDigitChars_digitChars : Nat.ofDigitChars 10 d.digitChars 0 = d.digits :=
  Nat.ofDigitChars_ten_toDigits

theorem value_of_nonneg (h : 0 ≤ d.exponent) : d.value = d.digits * 10 ^ d.exponent.toNat := by
  rw [value, ← zpow_natCast, Int.toNat_of_nonneg h]

theorem value_of_nonpos (h : d.exponent ≤ 0) : d.value = d.digits / 10 ^ (-d.exponent).toNat := by
  rw [value, div_eq_mul_inv, ← zpow_natCast, ← zpow_neg, Int.toNat_of_nonneg (by omega), neg_neg]

theorem numeral_positional : numeral d.positional = d.value := by
  have hpoint := d.not_mem_digitChars (by decide : '.'.isDigit = false)
  have he := d.not_mem_digitChars (by decide : 'e'.isDigit = false)
  unfold positional
  split
  · rename_i hexponent
    have hzero (n : Nat) : Nat.ofDigitChars 10 ['0'] n = 10 * n := by
      simp [Nat.ofDigitChars_cons]
    rw [numeral_fixedPoint (by simp [he]), fixedPoint_append (by simp [hpoint]),
      d.value_of_nonneg hexponent, Nat.ofDigitChars_append, Nat.ofDigitChars_append,
      ofDigitChars_digitChars, Nat.ofDigitChars_replicate_zero, hzero, List.length_singleton]
    push_cast
    ring
  · rename_i hexponent
    let padded := List.replicate ((-d.exponent).toNat + 1 - d.digitChars.length) '0' ++ d.digitChars
    have hpadded : Nat.ofDigitChars 10 padded 0 = d.digits := by
      rw [Nat.ofDigitChars_append, Nat.ofDigitChars_replicate_zero, Nat.mul_zero,
        ofDigitChars_digitChars]
    have hlength : padded.length - (padded.length - (-d.exponent).toNat) = (-d.exponent).toNat := by
      have : padded.length = _ := List.length_append
      rw [List.length_replicate] at this
      omega
    have hpoint' : '.' ∉ padded := by simp [padded, hpoint]
    have he' : 'e' ∉ padded := by simp [padded, he]
    change numeral (padded.take (padded.length - (-d.exponent).toNat) ++
      '.' :: padded.drop (padded.length - (-d.exponent).toNat)) = d.value
    rw [numeral_fixedPoint (not_mem_take_drop he' (by decide) _), fixedPoint_take_drop hpoint',
      hpadded, hlength, d.value_of_nonpos (by omega)]

theorem numeral_scientific : numeral d.scientific = d.value := by
  have hpoint := d.not_mem_digitChars (by decide : '.'.isDigit = false)
  have he := d.not_mem_digitChars (by decide : 'e'.isDigit = false)
  have hpos : 0 < d.digitChars.length := List.length_pos_iff.mpr Nat.toDigits_ne_nil
  have hpow : (10 : ℚ) ^ d.leading = 10 ^ d.exponent * 10 ^ (d.digitChars.length - 1) := by
    rw [← zpow_natCast, ← zpow_add₀ (by norm_num), leading]
    congr 1
    omega
  have hvalue : d.digits / 10 ^ (d.digitChars.length - 1) * 10 ^ d.leading = d.value := by
    rw [hpow, value]
    field_simp
  unfold scientific
  simp only
  split
  · rename_i hempty
    have hlength : d.digitChars.length ≤ 1 := List.drop_eq_nil_iff.mp (List.isEmpty_iff.mp hempty)
    rw [List.take_of_length_le hlength, List.append_nil, numeral_exponent he,
      fixedPoint_whole hpoint, ofDigitChars_digitChars, ← hvalue, Nat.sub_eq_zero_of_le hlength,
      pow_zero, div_one]
  · rw [numeral_exponent (not_mem_take_drop he (by decide) 1), fixedPoint_take_drop hpoint,
      ofDigitChars_digitChars, hvalue]

/-- The digits are read back as the number that they were written for. -/
theorem numeral_layout : numeral d.layout = d.value := by
  unfold layout
  split
  · exact d.numeral_positional
  · exact d.numeral_scientific

theorem isDigit_of_mem_digitChars {c : Char} (h : c ∈ d.digitChars) : c.isDigit = true :=
  Nat.isDigit_of_mem_toDigits (by decide) (by decide) h

theorem exists_layout_eq_append :
    ∃ digits rest, d.layout = digits ++ rest ∧ digits ≠ [] ∧ ∀ c ∈ digits, c.isDigit = true := by
  have hne : d.digitChars ≠ [] := Nat.toDigits_ne_nil
  unfold layout
  split
  · unfold positional
    split
    · refine ⟨d.digitChars, _, List.append_assoc .., hne, fun c hc => ?_⟩
      exact d.isDigit_of_mem_digitChars hc
    · refine ⟨_, _, rfl, ?_, fun c hc => ?_⟩
      · rw [ne_eq, ← List.length_eq_zero_iff, List.length_take, List.length_append,
          List.length_replicate]
        omega
      · rcases List.mem_append.mp (List.mem_of_mem_take hc) with hc | hc
        · rw [List.eq_of_mem_replicate hc]
          decide
        · exact d.isDigit_of_mem_digitChars hc
  · refine ⟨d.digitChars.take 1, _, List.append_assoc .., by simpa using hne, fun c hc => ?_⟩
    exact d.isDigit_of_mem_digitChars (List.mem_of_mem_take hc)

end Decimal

open Decimal

/-- The text of a float without its sign, given its bits. -/
def magnitudeText (m : Nat) : List Char :=
  if m = 0x7FF0000000000000 then ['i', 'n', 'f']
  else if m = 0 then ['0', '.', '0']
  else (Binary.ofBits m).shortest.layout

section Magnitude
variable {m k : Nat}

theorem magnitudeText_eq_cons (h : m < 0x7FF0000000000000) :
    ∃ c cs, magnitudeText m = c :: cs ∧ c.isDigit = true := by
  unfold magnitudeText
  rw [if_neg h.ne]
  split
  · exact ⟨'0', ['.', '0'], rfl, by decide⟩
  · obtain ⟨digits, rest, hlayout, hne, hdigits⟩ := (Binary.ofBits m).shortest.exists_layout_eq_append
    obtain ⟨c, cs, rfl⟩ := List.exists_cons_of_ne_nil hne
    exact ⟨c, cs ++ rest, hlayout, hdigits c List.mem_cons_self⟩

theorem rounds_magnitudeText (hpos : 0 < m) (h : m < 0x7FF0000000000000) :
    (Binary.ofBits m).Rounds (numeral (magnitudeText m)) := by
  rw [magnitudeText, if_neg h.ne, if_neg hpos.ne', numeral_layout]
  exact Binary.rounds_shortest (Binary.mantissa_ofBits_pos hpos h)

theorem numeral_magnitudeText_zero : numeral (magnitudeText 0) = 0 := by
  change numeral (['0'] ++ '.' :: ['0']) = 0
  rw [numeral_fixedPoint (by decide), fixedPoint_append (by decide)]
  simp [Nat.ofDigitChars_cons]

theorem numeral_magnitudeText_ne (h : m < k) (hk : k < 0x7FF0000000000000) :
    numeral (magnitudeText m) ≠ numeral (magnitudeText k) := by
  have hrounds := rounds_magnitudeText (by omega) hk
  intro heq
  rcases Nat.eq_zero_or_pos m with rfl | hpos
  · rw [← heq, numeral_magnitudeText_zero] at hrounds
    exact hrounds.pos (Binary.mantissa_ofBits_pos h hk) |>.false
  · have hrounds' := rounds_magnitudeText hpos (h.trans hk)
    rw [heq] at hrounds'
    exact Binary.not_rounds_of_lt h hk hrounds' hrounds

theorem magnitudeText_ne_infinity (h : m < 0x7FF0000000000000) : magnitudeText m ≠ ['i', 'n', 'f'] := by
  obtain ⟨c, cs, htext, hc⟩ := magnitudeText_eq_cons h
  rw [htext]
  intro heq
  cases heq
  exact absurd hc (by decide)

theorem magnitudeText_injective (hm : m ≤ 0x7FF0000000000000) (hk : k ≤ 0x7FF0000000000000)
    (h : magnitudeText m = magnitudeText k) : m = k := by
  rcases hm.lt_or_eq with hm | rfl
  · rcases hk.lt_or_eq with hk | rfl
    · rcases Nat.lt_trichotomy m k with hlt | heq | hgt
      · exact absurd (congrArg numeral h) (numeral_magnitudeText_ne hlt hk)
      · exact heq
      · exact absurd (congrArg numeral h).symm (numeral_magnitudeText_ne hgt hm)
    · exact absurd h (magnitudeText_ne_infinity hm)
  · rcases hk.lt_or_eq with hk | rfl
    · exact absurd h.symm (magnitudeText_ne_infinity hk)
    · rfl

end Magnitude

section Float
variable {x y : Float}

theorem float_eq_of_toBits (h : x.toBits.toNat = y.toBits.toNat) : x = y := by
  obtain ⟨⟨bits, _⟩⟩ := x
  obtain ⟨⟨bits', _⟩⟩ := y
  cases UInt64.toNat_inj.mp h
  rfl

theorem toBits_of_nan (h : 0x7FF0000000000000 < x.toBits.toNat % 0x8000000000000000) :
    x.toBits.toBitVec = Float.Model.UnpackedFloat.packedNaN .binary64 := by
  refine x.toModel.valid.eq_packedNaN ?_ ?_
  · refine BitVec.eq_of_toNat_eq ?_
    simp only [Float.Model.UnpackedFloat.unpackExponent, BitVec.toNat_cast, BitVec.extractLsb_toNat,
      UInt64.toNat_toBitVec, Nat.shiftRight_eq_div_pow]
    change x.toBits.toNat / 2 ^ 52 % 2 ^ 11 = 2047
    omega
  · intro hzero
    have hnat := congrArg BitVec.toNat hzero
    simp only [Float.Model.UnpackedFloat.unpackMantissa, BitVec.toNat_cast, BitVec.extractLsb_toNat,
      UInt64.toNat_toBitVec, Nat.shiftRight_zero] at hnat
    change x.toBits.toNat % 2 ^ 52 = 0 at hnat
    omega

theorem floatText_of_nan (h : 0x7FF0000000000000 < x.toBits.toNat % 0x8000000000000000) :
    (floatText x).toList = ['N', 'a', 'N'] := by
  simp only [floatText]
  rw [if_pos h]
  rfl

theorem floatText_of_le (h : x.toBits.toNat % 0x8000000000000000 ≤ 0x7FF0000000000000) :
    (floatText x).toList = (if x.toBits.toNat < 0x8000000000000000 then [] else ['-']) ++
      magnitudeText (x.toBits.toNat % 0x8000000000000000) := by
  have hsign : (if x.toBits.toNat < 0x8000000000000000 then "" else "-").toList =
      if x.toBits.toNat < 0x8000000000000000 then [] else ['-'] := by
    split <;> rfl
  simp only [floatText, magnitudeText]
  rw [if_neg (Nat.not_lt.mpr h)]
  split
  · rw [String.toList_append, hsign]
    rfl
  · split
    · rw [String.toList_append, hsign]
      rfl
    · rw [String.toList_append, hsign, String.toList_ofList]

theorem exists_magnitudeText_eq_cons {m : Nat} (h : m ≤ 0x7FF0000000000000) :
    ∃ c cs, magnitudeText m = c :: cs ∧ c ≠ '-' ∧ c ≠ 'N' := by
  rcases h.lt_or_eq with h | rfl
  · obtain ⟨c, cs, htext, hc⟩ := magnitudeText_eq_cons h
    refine ⟨c, cs, htext, ?_, ?_⟩
    · rintro rfl
      exact absurd hc (by decide)
    · rintro rfl
      exact absurd hc (by decide)
  · exact ⟨'i', ['n', 'f'], rfl, by decide, by decide⟩

theorem floatText_ne_nan (h : x.toBits.toNat % 0x8000000000000000 ≤ 0x7FF0000000000000) :
    (floatText x).toList ≠ ['N', 'a', 'N'] := by
  obtain ⟨c, cs, htext, -, hc⟩ := exists_magnitudeText_eq_cons h
  rw [floatText_of_le h, htext]
  split
  · intro heq
    cases heq
    exact hc rfl
  · intro heq
    cases heq

theorem sign_append_inj {s t : Prop} [Decidable s] [Decidable t] {m k : Nat}
    (hm : m ≤ 0x7FF0000000000000) (hk : k ≤ 0x7FF0000000000000)
    (h : (if s then [] else ['-']) ++ magnitudeText m = (if t then [] else ['-']) ++ magnitudeText k) :
    (s ↔ t) ∧ m = k := by
  obtain ⟨c, cs, htext, hc, -⟩ := exists_magnitudeText_eq_cons hm
  obtain ⟨c', cs', htext', hc', -⟩ := exists_magnitudeText_eq_cons hk
  by_cases hs : s
  · by_cases ht : t
    · rw [if_pos hs, if_pos ht] at h
      exact ⟨iff_of_true hs ht, magnitudeText_injective hm hk h⟩
    · rw [if_pos hs, if_neg ht, htext] at h
      exact absurd (List.cons_eq_cons.mp h).1 hc
  · by_cases ht : t
    · rw [if_neg hs, if_pos ht, htext'] at h
      exact absurd (List.cons_eq_cons.mp h).1.symm hc'
    · rw [if_neg hs, if_neg ht] at h
      exact ⟨iff_of_false hs ht, magnitudeText_injective hm hk (List.append_cancel_left h)⟩

end Float

/-- Different floats are written differently. -/
theorem floatText_injective : Function.Injective floatText := by
  intro x y h
  have hlist := congrArg String.toList h
  rcases Nat.lt_or_ge 0x7FF0000000000000 (x.toBits.toNat % 0x8000000000000000) with hx | hx
  · rcases Nat.lt_or_ge 0x7FF0000000000000 (y.toBits.toNat % 0x8000000000000000) with hy | hy
    · have hbits := (toBits_of_nan hx).trans (toBits_of_nan hy).symm
      exact float_eq_of_toBits (congrArg BitVec.toNat hbits)
    · exact absurd (hlist.symm.trans (floatText_of_nan hx)) (floatText_ne_nan hy)
  · rcases Nat.lt_or_ge 0x7FF0000000000000 (y.toBits.toNat % 0x8000000000000000) with hy | hy
    · exact absurd (hlist.trans (floatText_of_nan hy)) (floatText_ne_nan hx)
    · rw [floatText_of_le hx, floatText_of_le hy] at hlist
      obtain ⟨hsign, hmagnitude⟩ := sign_append_inj hx hy hlist
      have hx' := x.toBits.toNat_lt
      have hy' := y.toBits.toNat_lt
      refine float_eq_of_toBits ?_
      omega

theorem Decimal.exists_mem_layout (d : Decimal) : ∃ c ∈ d.layout, c.isDigit = false ∧ c ≠ '-' := by
  unfold layout
  split
  · refine ⟨'.', ?_, by decide, by decide⟩
    unfold positional
    split
    · simp
    · exact List.mem_append_right _ List.mem_cons_self
  · exact ⟨'e', List.mem_append_right _ List.mem_cons_self, by decide, by decide⟩

theorem exists_mem_floatText (x : Float) :
    ∃ c ∈ (floatText x).toList, c.isDigit = false ∧ c ≠ '-' := by
  rcases Nat.lt_or_ge 0x7FF0000000000000 (x.toBits.toNat % 0x8000000000000000) with hx | hx
  · rw [floatText_of_nan hx]
    exact ⟨'N', List.mem_cons_self, by decide, by decide⟩
  · rw [floatText_of_le hx]
    suffices h : ∃ c ∈ magnitudeText (x.toBits.toNat % 0x8000000000000000),
        c.isDigit = false ∧ c ≠ '-' by
      obtain ⟨c, hmem, hc⟩ := h
      exact ⟨c, List.mem_append_right _ hmem, hc⟩
    unfold magnitudeText
    split
    · exact ⟨'i', by decide, by decide, by decide⟩
    · split
      · exact ⟨'.', by decide, by decide, by decide⟩
      · exact Decimal.exists_mem_layout _

theorem isDigit_of_mem_repr {n : Int} {c : Char} (h : c ∈ n.repr.toList) :
    c.isDigit = true ∨ c = '-' := by
  have hdigits {k : Nat} (hmem : c ∈ k.repr.toList) : c.isDigit = true := by
    rw [Nat.toList_repr] at hmem
    exact Nat.isDigit_of_mem_toDigits (by decide) (by decide) hmem
  rw [Int.repr_eq_if] at h
  split at h
  · exact .inl (hdigits h)
  · rw [String.toList_append] at h
    rcases List.mem_append.mp h with hminus | hmem
    · exact .inr (List.mem_singleton.mp hminus)
    · exact .inl (hdigits hmem)

theorem repr_ne_floatText (n : Int) (x : Float) : n.repr ≠ floatText x := by
  intro h
  obtain ⟨c, hmem, hdigit, hminus⟩ := exists_mem_floatText x
  rw [← h] at hmem
  rcases isDigit_of_mem_repr hmem with hc | hc
  · rw [hc] at hdigit
    cases hdigit
  · exact hminus hc

/-- The printed text of a value determines the value, and whether it is an integer or a float. -/
theorem Value.text_injective : Function.Injective Value.text := by
  intro v w h
  cases v with
  | int n =>
    cases w with
    | int k =>
      have hint := congrArg (fun text => signedNumber text.toList) h
      simp only [text, signedNumber_repr] at hint
      rw [Int64.toInt_inj.mp hint]
    | float y => exact absurd h (repr_ne_floatText _ y)
  | float x =>
    cases w with
    | int k => exact absurd h.symm (repr_ne_floatText _ x)
    | float y => rw [floatText_injective h]

end Primer
