import Mathlib.Data.List.Induction

/-! # Properties that look back

A step of a walk may be allowed or not depending on the steps before it. A list of steps is then
either all right or has a first one that is not.
-/
namespace Primer

/-- Each element of the list has the property, given the elements before it. -/
def AtEach {α : Type} (P : List α → α → Prop) (l : List α) : Prop :=
  ∀ before a after, l = before ++ a :: after → P before a

variable {α : Type} {P : List α → α → Prop} {l r : List α} {a : α}

theorem atEach_nil : AtEach P [] := by
  intro before a after h
  simp at h

theorem atEach_append : AtEach P (l ++ r) ↔ AtEach P l ∧ AtEach (fun before => P (l ++ before)) r := by
  constructor
  · intro h
    refine ⟨fun before a after hl => h before a (after ++ r) (by simp [hl]), ?_⟩
    intro before a after hr
    exact h (l ++ before) a after (by simp [hr])
  · rintro ⟨hl, hr⟩ before a after h
    obtain ⟨middle, rfl, hmiddle⟩ | ⟨middle, rfl, hmiddle⟩ := List.append_eq_append_iff.mp h
    · exact hr middle a after hmiddle
    · cases middle with
      | nil => simpa using hr [] a after hmiddle.symm
      | cons b middle =>
        obtain ⟨rfl, -⟩ := List.cons_eq_cons.mp hmiddle
        exact hl before a middle rfl

theorem atEach_singleton : AtEach P [a] ↔ P [] a := by
  constructor
  · intro h
    exact h [] a [] rfl
  · intro h before b after heq
    cases before with
    | nil =>
      obtain ⟨rfl, -⟩ := List.cons_eq_cons.mp heq
      exact h
    | cons c before => simp at heq

theorem atEach_concat : AtEach P (l ++ [a]) ↔ AtEach P l ∧ P l a := by
  rw [atEach_append, atEach_singleton, List.append_nil]

theorem atEach_or_exists_first (l : List α) :
    AtEach P l ∨ ∃ before a after, l = before ++ a :: after ∧ AtEach P before ∧ ¬ P before a := by
  induction l using List.reverseRecOn with
  | nil => exact .inl atEach_nil
  | append_singleton l a ih =>
    rcases ih with hl | ⟨before, b, after, rfl, hbefore, hb⟩
    · by_cases ha : P l a
      · exact .inl (atEach_concat.mpr ⟨hl, ha⟩)
      · exact .inr ⟨l, a, [], rfl, hl, ha⟩
    · exact .inr ⟨before, b, after ++ [a], by simp, hbefore, hb⟩

end Primer
