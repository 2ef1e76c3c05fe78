/-! # Maps from names

A map from names is kept as a list of its entries in the order of their names, so that it is
listed the same way whatever the order of the insertions was. Two maps that look up the same value
for every name are equal.
-/
namespace Primer

/-- The entries stand in strictly increasing order of their names. -/
structure NameMap (α : Type) where
  entries : List (String × α)
  sorted : entries.Pairwise (fun a b => a.1 < b.1)

namespace NameMap

variable {α : Type}

def empty : NameMap α := ⟨[], .nil⟩

/-- Puts an entry in its place; an entry of the same name gives way. -/
def insertEntry (name : String) (value : α) : List (String × α) → List (String × α)
  | [] => [(name, value)]
  | (n, v) :: rest =>
    if name = n then (name, value) :: rest
    else if name < n then (name, value) :: (n, v) :: rest
    else (n, v) :: insertEntry name value rest

theorem mem_insertEntry {name : String} {value : α} {entries : List (String × α)}
    {e : String × α} (h : e ∈ insertEntry name value entries) :
    e = (name, value) ∨ e ∈ entries := by
  induction entries with
  | nil => simpa [insertEntry] using h
  | cons head rest ih =>
    unfold insertEntry at h
    split at h
    · grind
    · split at h <;> grind

theorem sorted_insertEntry {entries : List (String × α)}
    (h : entries.Pairwise (fun a b => a.1 < b.1)) (name : String) (value : α) :
    (insertEntry name value entries).Pairwise (fun a b => a.1 < b.1) := by
  induction entries with
  | nil => simp [insertEntry]
  | cons head rest ih =>
    obtain ⟨hhead, hrest⟩ := List.pairwise_cons.mp h
    unfold insertEntry
    split
    · rename_i heq
      exact List.pairwise_cons.mpr ⟨fun e he => heq ▸ hhead e he, hrest⟩
    · rename_i hne
      split
      · rename_i hlt
        refine List.pairwise_cons.mpr ⟨fun e he => ?_, h⟩
        rcases List.mem_cons.mp he with rfl | he
        · exact hlt
        · exact String.lt_trans hlt (hhead e he)
      · rename_i hge
        refine List.pairwise_cons.mpr ⟨fun e he => ?_, ih hrest⟩
        rcases mem_insertEntry he with rfl | he
        · exact Std.lt_of_le_of_ne (String.not_lt.mp hge) (Ne.symm hne)
        · exact hhead e he

def insert (m : NameMap α) (name : String) (value : α) : NameMap α :=
  ⟨insertEntry name value m.entries, sorted_insertEntry m.sorted name value⟩

def get? (m : NameMap α) (name : String) : Option α :=
  m.entries.lookup name

def size (m : NameMap α) : Nat := m.entries.length

@[simp] theorem get?_empty (name : String) : (empty : NameMap α).get? name = none := rfl

theorem lookup_insertEntry (name : String) (value : α) (other : String)
    (entries : List (String × α)) :
    (insertEntry name value entries).lookup other =
      if other = name then some value else entries.lookup other := by
  induction entries with
  | nil => grind [insertEntry]
  | cons head rest ih =>
    unfold insertEntry
    repeat' split
    all_goals grind

theorem get?_insert (m : NameMap α) (name : String) (value : α) (other : String) :
    (m.insert name value).get? other = if other = name then some value else m.get? other :=
  lookup_insertEntry ..

theorem get?_eq_some_iff {m : NameMap α} {name : String} {value : α} :
    m.get? name = some value ↔ (name, value) ∈ m.entries := by
  obtain ⟨entries, h⟩ := m
  simp only [get?]
  induction entries with
  | nil => simp
  | cons head rest ih =>
    obtain ⟨hhead, hrest⟩ := List.pairwise_cons.mp h
    have hnot : (head.1, value) ∉ rest := fun hm =>
      String.lt_irrefl head.1 (hhead (head.1, value) hm)
    by_cases heq : name = head.1 <;> grind

theorem eq_of_mem_iff {l l' : List (String × α)} (h : l.Pairwise (fun a b => a.1 < b.1))
    (h' : l'.Pairwise (fun a b => a.1 < b.1)) (hmem : ∀ e, e ∈ l ↔ e ∈ l') : l = l' := by
  induction l generalizing l' with
  | nil => exact (List.eq_nil_iff_forall_not_mem.mpr fun e he => by simpa using (hmem e).mpr he).symm
  | cons a l ih =>
    cases l' with
    | nil => simpa using (hmem a).mp List.mem_cons_self
    | cons b l' =>
      obtain ⟨ha, hl⟩ := List.pairwise_cons.mp h
      obtain ⟨hb, hl'⟩ := List.pairwise_cons.mp h'
      have hab : a = b := by
        rcases List.mem_cons.mp ((hmem a).mp List.mem_cons_self) with rfl | ha'
        · rfl
        rcases List.mem_cons.mp ((hmem b).mpr List.mem_cons_self) with rfl | hb'
        · rfl
        · exact absurd (hb a ha') (String.lt_asymm (ha b hb'))
      subst hab
      have hirr : ∀ {k : List (String × α)}, (∀ e ∈ k, a.1 < e.1) → a ∉ k := fun hk hm =>
        String.lt_irrefl _ (hk a hm)
      rw [ih hl hl' fun e => ?_]
      have := hmem e
      have := hirr ha
      have := hirr hb
      grind

theorem ext_get? {m m' : NameMap α} (h : ∀ name, m.get? name = m'.get? name) : m = m' := by
  have hs : m.entries = m'.entries := eq_of_mem_iff m.sorted m'.sorted fun (name, value) => by
    rw [← get?_eq_some_iff, ← get?_eq_some_iff, h]
  cases m
  cases m'
  simpa using hs

end NameMap

end Primer
