import Mathlib.Data.Finset.Card
import Primer.NameMap

/-! # Many insertions into a map

Of the things that are inserted one after the other under the same name, the last one is found. The
number of entries is that of the names.
-/
namespace Primer

/-- The last element of the list whose key is the name. -/
def LastNamed {β : Type} (key : β → String) (l : List β) (name : String) (b : β) : Prop :=
  ∃ before after, l = before ++ b :: after ∧ key b = name ∧ ∀ c ∈ after, key c ≠ name

namespace LastNamed
variable {β : Type} {key : β → String} {l : List β} {name : String} {b c : β}

theorem mem (h : LastNamed key l name b) : b ∈ l := by
  obtain ⟨before, after, rfl, -, -⟩ := h
  exact List.mem_append_right _ List.mem_cons_self

theorem key_eq (h : LastNamed key l name b) : key b = name := by
  obtain ⟨-, -, -, hb, -⟩ := h
  exact hb

theorem not_nil : ¬ LastNamed key [] name b := by
  rintro ⟨before, after, hnil, -, -⟩
  simp at hnil

theorem concat_iff :
    LastNamed key (l ++ [c]) name b ↔ if key c = name then b = c else LastNamed key l name b := by
  constructor
  · rintro ⟨before, after, hsplit, hb, hafter⟩
    rcases List.eq_nil_or_concat' after with rfl | ⟨init, d, rfl⟩
    · obtain ⟨-, rfl⟩ := List.append_singleton_inj.mp hsplit
      rw [if_pos hb]
    · rw [← List.cons_append, ← List.append_assoc] at hsplit
      obtain ⟨rfl, rfl⟩ := List.append_singleton_inj.mp hsplit
      rw [if_neg (hafter c (by simp))]
      exact ⟨before, init, rfl, hb, fun x hx => hafter x (by simp [hx])⟩
  · split
    · rename_i hc
      rintro rfl
      exact ⟨l, [], rfl, hc, by simp⟩
    · rename_i hc
      rintro ⟨before, after, rfl, hb, hafter⟩
      refine ⟨before, after ++ [c], by simp, hb, ?_⟩
      intro x hx
      rcases List.mem_append.mp hx with hx | hx
      · exact hafter x hx
      · exact List.mem_singleton.mp hx ▸ hc

theorem exists_iff : (∃ b, LastNamed key l name b) ↔ name ∈ l.map key := by
  constructor
  · rintro ⟨b, h⟩
    exact List.mem_map.mpr ⟨b, h.mem, h.key_eq⟩
  · intro h
    induction l using List.reverseRecOn with
    | nil => simp at h
    | append_singleton l c ih =>
      simp only [concat_iff]
      split
      · exact ⟨c, rfl⟩
      · rename_i hc
        exact ih (by simpa [Ne.symm hc] using h)

end LastNamed

namespace NameMap
variable {α β : Type} {m : NameMap α} {key : β → String} {value : β → α} {l : List β}
  {name : String}

/-- Inserts something for each element of the list, from left to right. -/
def insertAll (m : NameMap α) (key : β → String) (value : β → α) (l : List β) : NameMap α :=
  l.foldl (fun m b => m.insert (key b) (value b)) m

theorem insertAll_concat (b : β) :
    m.insertAll key value (l ++ [b]) = (m.insertAll key value l).insert (key b) (value b) := by
  simp only [insertAll, List.foldl_append, List.foldl_cons, List.foldl_nil]

/-- What is found under a name was inserted last, or was there before and has not been replaced. -/
theorem get?_insertAll_eq_some_iff {v : α} :
    (m.insertAll key value l).get? name = some v ↔
      (∃ b, LastNamed key l name b ∧ value b = v) ∨ (name ∉ l.map key ∧ m.get? name = some v) := by
  induction l using List.reverseRecOn with
  | nil => simp [insertAll, LastNamed.not_nil]
  | append_singleton l c ih =>
    rw [insertAll_concat, get?_insert]
    by_cases hc : key c = name
    · rw [if_pos hc.symm]
      simp [LastNamed.concat_iff, hc]
    · rw [if_neg (Ne.symm hc), ih]
      simp [LastNamed.concat_iff, hc, Ne.symm hc]

theorem get?_insertAll_ne_none_iff :
    (m.insertAll key value l).get? name ≠ none ↔ name ∈ l.map key ∨ m.get? name ≠ none := by
  induction l using List.reverseRecOn with
  | nil => simp [insertAll]
  | append_singleton l c ih =>
    rw [insertAll_concat, get?_insert]
    by_cases hc : name = key c
    · simp [hc]
    · rw [if_neg hc, ih]
      simp [hc]

theorem nodup_names (m : NameMap α) : (m.entries.map Prod.fst).Nodup := by
  refine List.pairwise_map.mpr (m.sorted.imp ?_)
  intro a b hlt heq
  exact String.lt_irrefl _ (heq ▸ hlt)

theorem mem_names_iff : name ∈ m.entries.map Prod.fst ↔ m.get? name ≠ none := by
  rw [Option.ne_none_iff_exists', List.mem_map]
  constructor
  · rintro ⟨⟨_, value⟩, hmem, rfl⟩
    exact ⟨value, get?_eq_some_iff.mpr hmem⟩
  · rintro ⟨value, hvalue⟩
    exact ⟨(name, value), get?_eq_some_iff.mp hvalue, rfl⟩

theorem size_eq_card {names : Finset String} (h : ∀ name, name ∈ names ↔ m.get? name ≠ none) :
    m.size = names.card := by
  have hnames : names = (m.entries.map Prod.fst).toFinset := by
    ext name
    rw [h, List.mem_toFinset, mem_names_iff]
  rw [hnames, List.toFinset_card_of_nodup m.nodup_names, List.length_map, size]

end NameMap

end Primer
