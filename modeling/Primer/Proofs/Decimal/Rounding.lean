import Mathlib.Algebra.Order.Field.Power
import Mathlib.Data.Rat.Cast.Order
import Mathlib.Tactic.LinearCombination
import Mathlib.Tactic.NormNum
import Mathlib.Tactic.Ring
import Primer.Decimal.Shortest

/-! # Which numbers round to a float

The numbers that round to a float lie between two bounds, and they include these if its mantissa is
even. The shortest decimal of the float is one of them. Where one float ends the next one begins, and
of two neighbours only one has an even mantissa, so that no number rounds to two floats.
-/
namespace Primer.Decimal

/-- The number that is written in this way. -/
def value (d : Decimal) : ℚ := d.digits * 10 ^ d.exponent

namespace Binary

/-- A number of quarters of a unit in the last place. -/
def ofQuarters (b : Binary) (n : Nat) : ℚ := n * 2 ^ (b.exponent - 2)

/-- The number rounds to this one. -/
def Rounds (b : Binary) (x : ℚ) : Prop :=
  if b.mantissa % 2 = 0 then b.ofQuarters b.lower ≤ x ∧ x ≤ b.ofQuarters b.upper
  else b.ofQuarters b.lower < x ∧ x < b.ofQuarters b.upper

variable {b : Binary} {x : ℚ}

theorem ofQuarters_lt_iff {n k : Nat} : b.ofQuarters n < b.ofQuarters k ↔ n < k := by
  rw [ofQuarters, ofQuarters, mul_lt_mul_iff_of_pos_right (by positivity), Nat.cast_lt]

theorem lower_lt_upper (b : Binary) : b.lower < b.upper := by
  unfold lower upper
  split <;> omega

theorem Rounds.bounds (h : b.Rounds x) :
    b.ofQuarters b.lower ≤ x ∧ x ≤ b.ofQuarters b.upper := by
  unfold Rounds at h
  split at h
  · exact h
  · exact ⟨h.1.le, h.2.le⟩

theorem rounds_of_lt (hlower : b.ofQuarters b.lower < x) (hupper : x < b.ofQuarters b.upper) :
    b.Rounds x := by
  unfold Rounds
  split
  · exact ⟨hlower.le, hupper.le⟩
  · exact ⟨hlower, hupper⟩

theorem Rounds.even_of_eq (h : b.Rounds x)
    (hx : x = b.ofQuarters b.lower ∨ x = b.ofQuarters b.upper) : b.mantissa % 2 = 0 := by
  unfold Rounds at h
  split at h
  · assumption
  · rcases hx with rfl | rfl
    · exact absurd h.1 (lt_irrefl _)
    · exact absurd h.2 (lt_irrefl _)

theorem Rounds.pos (h : b.Rounds x) (hpos : 0 < b.mantissa) : 0 < x := by
  have hlower : 0 < b.lower := by
    unfold lower quarters
    split <;> omega
  refine lt_of_lt_of_le ?_ h.bounds.1
  rw [ofQuarters]
  positivity

section Grid
variable {place : Int} {d : Nat}

theorem zpow_mul_pow_neg {a : ℚ} (ha : a ≠ 0) (k : Int) : a ^ k * a ^ (-k).toNat = a ^ k.toNat := by
  rw [← zpow_natCast, ← zpow_natCast, ← zpow_add₀ ha]
  congr 1
  omega

theorem exists_scale (b : Binary) (place : Int) :
    ∃ u : ℚ, 0 < u ∧ (∀ n : Nat, ((n * (b.scales place).1 : Nat) : ℚ) = b.ofQuarters n * u) ∧
      ∀ d : Nat, ((d * (b.scales place).2 : Nat) : ℚ) = d * 10 ^ place * u := by
  have htwo := zpow_mul_pow_neg (two_ne_zero : (2 : ℚ) ≠ 0) (b.exponent - 2)
  have hten := zpow_mul_pow_neg (by norm_num : (10 : ℚ) ≠ 0) place
  refine ⟨10 ^ (-place).toNat * 2 ^ (-(b.exponent - 2)).toNat, by positivity, ?_, ?_⟩
  · intro n
    simp only [scales, ofQuarters, Nat.pow_eq, Nat.cast_mul, Nat.cast_pow, Nat.cast_ofNat, ← htwo]
    ring
  · intro d
    simp only [scales, Nat.pow_eq, Nat.cast_mul, Nat.cast_pow, Nat.cast_ofNat, ← hten]
    ring

theorem lt_iff_of_scale {u p q : ℚ} {n k : Nat} (hu : 0 < u) (hn : (n : ℚ) = p * u)
    (hk : (k : ℚ) = q * u) : n < k ↔ p < q := by
  rw [← mul_lt_mul_iff_of_pos_right hu, ← hn, ← hk, Nat.cast_lt]

theorem rounds_iff_within :
    b.Rounds (d * 10 ^ place) ↔
      b.within (b.lower * (b.scales place).1) (d * (b.scales place).2) = true ∧
        b.within (d * (b.scales place).2) (b.upper * (b.scales place).1) = true := by
  obtain ⟨u, hu, hquarters, hgrid⟩ := b.exists_scale place
  unfold Rounds within
  split
  · simp only [decide_eq_true_eq, ← not_lt]
    rw [lt_iff_of_scale hu (hgrid d) (hquarters b.lower),
      lt_iff_of_scale hu (hquarters b.upper) (hgrid d)]
  · simp only [decide_eq_true_eq]
    rw [lt_iff_of_scale hu (hquarters b.lower) (hgrid d),
      lt_iff_of_scale hu (hgrid d) (hquarters b.upper)]

theorem within_of_lt {low high : Nat} (h : low < high) : b.within low high = true := by
  unfold within
  split
  · exact decide_eq_true h.le
  · exact decide_eq_true h

theorem rounds_of_onGrid? (h : b.onGrid? place = some d) : b.Rounds (d * 10 ^ place) := by
  have hs : 0 < (b.scales place).1 :=
    Nat.mul_pos (Nat.pow_pos (by decide)) (Nat.pow_pos (by decide))
  have ht : 0 < (b.scales place).2 :=
    Nat.mul_pos (Nat.pow_pos (by decide)) (Nat.pow_pos (by decide))
  rw [rounds_iff_within]
  unfold onGrid? at h
  generalize b.scales place = scales at h hs ht ⊢
  obtain ⟨s, t⟩ := scales
  have hbelow : b.quarters * s / t * t ≤ b.quarters * s := Nat.div_mul_le_self _ _
  have habove : b.quarters * s < (b.quarters * s / t + 1) * t :=
    (Nat.div_lt_iff_lt_mul ht).mp (Nat.lt_succ_self _)
  have hlower : b.lower * s ≤ b.quarters * s := Nat.mul_le_mul_right s (Nat.sub_le _ _)
  have hupper : b.quarters * s < b.upper * s := Nat.mul_lt_mul_of_pos_right (by simp [upper]) hs
  simp only at h
  split at h
  · rename_i hfits
    cases h
    exact ⟨within_of_lt (hlower.trans_lt habove), (Bool.and_eq_true_iff.mp hfits).1⟩
  · split at h
    · rename_i hfits
      cases h
      exact ⟨hfits, within_of_lt (hbelow.trans_lt hupper)⟩
    · cases h

end Grid

theorem ofQuarters_quarters (b : Binary) : b.ofQuarters b.quarters = b.mantissa * 2 ^ b.exponent := by
  rw [ofQuarters, quarters, zpow_sub₀ two_ne_zero, Nat.cast_mul]
  norm_num
  ring

theorem value_exact (b : Binary) : b.exact.value = b.mantissa * 2 ^ b.exponent := by
  unfold exact
  split
  · rename_i hexponent
    have hpow : (2 : ℚ) ^ b.exponent = 2 ^ b.exponent.toNat := by
      rw [← zpow_natCast, Int.toNat_of_nonneg hexponent]
    simp [value, hpow]
  · have hfive := zpow_mul_pow_neg (by norm_num : (5 : ℚ) ≠ 0) b.exponent
    have hzero : b.exponent.toNat = 0 := by omega
    have hten : (10 : ℚ) ^ b.exponent = 2 ^ b.exponent * 5 ^ b.exponent := by
      rw [← mul_zpow]
      norm_num
    rw [hzero, pow_zero] at hfive
    simp only [value, Nat.pow_eq, Nat.cast_mul, Nat.cast_pow, Nat.cast_ofNat, hten]
    linear_combination (b.mantissa * 2 ^ b.exponent) * hfive

section Shortest
variable (hpos : 0 < b.mantissa)
include hpos

theorem rounds_exact : b.Rounds b.exact.value := by
  have hlower : b.lower < b.quarters := by
    unfold lower quarters
    split <;> omega
  have hupper : b.quarters < b.upper := by simp [upper]
  rw [value_exact, ← ofQuarters_quarters]
  exact rounds_of_lt (ofQuarters_lt_iff.mpr hlower) (ofQuarters_lt_iff.mpr hupper)

theorem rounds_coarsest (n : Nat) : b.Rounds (b.coarsest n).value := by
  induction n with
  | zero => exact rounds_exact hpos
  | succ n ih =>
    simp only [coarsest]
    split
    · rename_i hgrid
      exact rounds_of_onGrid? hgrid
    · exact ih

theorem rounds_shortest : b.Rounds b.shortest.value := rounds_coarsest hpos _

end Shortest

section Neighbours
variable {m k : Nat}

theorem ofBits_eq {biased fraction : Nat} (hbiased : biased < 0x800)
    (hfraction : fraction < 0x10000000000000) :
    ofBits (0x10000000000000 * biased + fraction) =
      if biased = 0 then ⟨fraction, -1074, false⟩
      else ⟨0x10000000000000 + fraction, biased - 1075, fraction == 0 && biased > 1⟩ := by
  have hmod : (0x10000000000000 * biased + fraction) % 0x10000000000000 = fraction := by omega
  have hdiv : (0x10000000000000 * biased + fraction) / 0x10000000000000 % 0x800 = biased := by omega
  simp only [ofBits, hmod, hdiv]

theorem mantissa_ofBits_mod_two (m : Nat) : (ofBits m).mantissa % 2 = m % 2 := by
  simp only [ofBits]
  split
  · exact Nat.mod_mod_of_dvd m (by decide)
  · change (0x10000000000000 + m % 0x10000000000000) % 2 = m % 2
    omega

theorem mantissa_ofBits_pos (h : 0 < m) (hm : m < 0x7FF0000000000000) : 0 < (ofBits m).mantissa := by
  simp only [ofBits]
  split
  · change 0 < m % 0x10000000000000
    omega
  · exact Nat.add_pos_left (by decide) _

theorem ofQuarters_congr {c : Binary} {n n' : Nat} (hexponent : b.exponent = c.exponent)
    (hn : n = n') : b.ofQuarters n = c.ofQuarters n' := by
  rw [ofQuarters, ofQuarters, hexponent, hn]

theorem ofQuarters_double {c : Binary} {n n' : Nat} (hexponent : c.exponent = b.exponent + 1)
    (hn : n = 2 * n') : b.ofQuarters n = c.ofQuarters n' := by
  have hpow : (2 : ℚ) ^ (c.exponent - 2) = 2 ^ (b.exponent - 2) * 2 := by
    rw [← zpow_add_one₀ two_ne_zero, hexponent]
    congr 1
    omega
  rw [ofQuarters, ofQuarters, hpow, hn, Nat.cast_mul, Nat.cast_ofNat]
  ring

/-- The upper bound of a float is the lower bound of the next one. -/
theorem upper_eq_lower_succ (hm : m + 1 < 0x7FF0000000000000) :
    (ofBits m).ofQuarters (ofBits m).upper = (ofBits (m + 1)).ofQuarters (ofBits (m + 1)).lower := by
  obtain ⟨biased, fraction, hfraction, rfl⟩ : ∃ biased fraction,
      fraction < 0x10000000000000 ∧ m = 0x10000000000000 * biased + fraction :=
    ⟨m / 0x10000000000000, m % 0x10000000000000, Nat.mod_lt _ (by decide), by omega⟩
  have hbiased : biased < 0x7FF := by omega
  rw [ofBits_eq (by omega) hfraction]
  by_cases hlast : fraction + 1 = 0x10000000000000
  · obtain rfl : fraction = 0xFFFFFFFFFFFFF := by omega
    have hnext : 0x10000000000000 * biased + 0xFFFFFFFFFFFFF + 1 =
        0x10000000000000 * (biased + 1) + 0 := by
      omega
    rw [hnext, ofBits_eq (by omega) (by decide), if_neg (Nat.succ_ne_zero biased)]
    cases biased with
    | zero => exact ofQuarters_congr rfl (by simp [upper, lower, quarters])
    | succ biased =>
      rw [if_neg (Nat.succ_ne_zero biased)]
      have hnarrow : ((0 == 0) && decide (biased + 1 + 1 > 1)) = true := by simp
      refine ofQuarters_double ?_ ?_
      · change ((biased + 1 + 1 : Nat) : Int) - 1075 = ((biased + 1 : Nat) : Int) - 1075 + 1
        omega
      · simp only [upper, lower, quarters, hnarrow, if_true]
  · rw [Nat.add_assoc, ofBits_eq (by omega) (by omega)]
    have hnarrow : (fraction + 1 == 0 && decide (biased > 1)) = false := by simp
    split
    · refine ofQuarters_congr rfl ?_
      simp only [upper, lower, quarters, Bool.false_eq_true, if_false]
      omega
    · refine ofQuarters_congr rfl ?_
      simp only [upper, lower, quarters, hnarrow, Bool.false_eq_true, if_false]
      omega

theorem lower_lt_lower (h : m < k) (hk : k < 0x7FF0000000000000) :
    (ofBits m).ofQuarters (ofBits m).lower < (ofBits k).ofQuarters (ofBits k).lower := by
  induction k with
  | zero => omega
  | succ k ih =>
    have hstep : (ofBits k).ofQuarters (ofBits k).lower <
        (ofBits (k + 1)).ofQuarters (ofBits (k + 1)).lower := by
      rw [← upper_eq_lower_succ hk]
      exact ofQuarters_lt_iff.mpr (lower_lt_upper _)
    rcases Nat.lt_succ_iff_lt_or_eq.mp h with hlt | rfl
    · exact (ih hlt (by omega)).trans hstep
    · exact hstep

/-- No number rounds to two floats. -/
theorem not_rounds_of_lt (h : m < k) (hk : k < 0x7FF0000000000000) (hrounds : (ofBits m).Rounds x) :
    ¬ (ofBits k).Rounds x := by
  intro hrounds'
  have hupper := hrounds.bounds.2
  have hlower := hrounds'.bounds.1
  rw [upper_eq_lower_succ (by omega)] at hupper
  rcases Nat.lt_or_ge (m + 1) k with hlt | hge
  · exact absurd (hlower.trans hupper) (not_le.mpr (lower_lt_lower hlt hk))
  · obtain rfl : k = m + 1 := by omega
    have hx := le_antisymm hupper hlower
    have heven := hrounds'.even_of_eq (.inl hx)
    have heven' := hrounds.even_of_eq (.inr (hx.trans (upper_eq_lower_succ hk).symm))
    rw [mantissa_ofBits_mod_two] at heven heven'
    omega

end Neighbours

end Binary

end Primer.Decimal
