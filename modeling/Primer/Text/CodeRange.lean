/-! # Ranges of code points

A character class is a list of ranges of code points in ascending order. A character belongs to the
class when one of the ranges covers it, and the search for it ends at the first range behind it.
-/
namespace Primer.Text

/-- The code points from `first` to `last`, both included. -/
structure CodeRange where
  first : Nat
  last : Nat
deriving DecidableEq

/-- Some range of the class covers the code point. -/
def inClass : List CodeRange → Nat → Bool
  | [], _ => false
  | r :: ranges, code =>
    if code < r.first then false
    else if code ≤ r.last then true
    else inClass ranges code

/-- No range of the class is empty, and each one ends before the next one starts. -/
def ascending : List CodeRange → Bool
  | [] => true
  | [r] => r.first ≤ r.last
  | r :: next :: ranges => r.first ≤ r.last && r.last < next.first && ascending (next :: ranges)

theorem first_le_of_ascending {r s : CodeRange} {ranges : List CodeRange}
    (h : ascending (r :: ranges) = true) (hs : s ∈ ranges) : r.last < s.first := by
  induction ranges generalizing r with
  | nil => simp at hs
  | cons next ranges ih =>
    simp only [ascending, Bool.and_eq_true, decide_eq_true_eq] at h
    obtain ⟨⟨_, hnext⟩, hrest⟩ := h
    rcases List.mem_cons.mp hs with rfl | hs
    · exact hnext
    · have hle : next.first ≤ next.last := by
        cases ranges with
        | nil => simpa [ascending] using hrest
        | cons _ _ =>
          simp only [ascending, Bool.and_eq_true, decide_eq_true_eq] at hrest
          exact hrest.1.1
      exact Nat.lt_trans hnext (Nat.lt_of_le_of_lt hle (ih hrest hs))

theorem ascending_tail {r : CodeRange} {ranges : List CodeRange}
    (h : ascending (r :: ranges) = true) : ascending ranges = true := by
  cases ranges with
  | nil => rfl
  | cons _ _ =>
    simp only [ascending, Bool.and_eq_true] at h
    exact h.2

theorem inClass_iff {ranges : List CodeRange} (h : ascending ranges = true) {code : Nat} :
    inClass ranges code = true ↔ ∃ r ∈ ranges, r.first ≤ code ∧ code ≤ r.last := by
  induction ranges with
  | nil => simp [inClass]
  | cons r ranges ih =>
    have hlt := fun s (hs : s ∈ ranges) => first_le_of_ascending h hs
    have hr : r.first ≤ r.last := by
      cases ranges with
      | nil => simpa [ascending] using h
      | cons _ _ =>
        simp only [ascending, Bool.and_eq_true, decide_eq_true_eq] at h
        exact h.1.1
    unfold inClass
    split
    · rename_i hbefore
      simp only [Bool.false_eq_true, List.mem_cons, false_iff, not_exists, not_and, Nat.not_le]
      rintro s (rfl | hs) hfirst
      · omega
      · have := hlt s hs
        omega
    · split
      · exact iff_of_true rfl ⟨r, List.mem_cons_self, by omega, by omega⟩
      · rw [ih (ascending_tail h)]
        constructor
        · rintro ⟨s, hs, hcover⟩
          exact ⟨s, List.mem_cons_of_mem _ hs, hcover⟩
        · rintro ⟨s, hs, hcover⟩
          rcases List.mem_cons.mp hs with rfl | hs
          · omega
          · exact ⟨s, hs, hcover⟩

end Primer.Text
