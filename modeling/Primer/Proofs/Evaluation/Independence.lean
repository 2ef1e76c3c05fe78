import Primer.Proofs.Evaluation.Footprint

/-! # Independent statements

Two statements are independent if neither of them writes what the other one reads or writes. Then
the second one does not notice whether the first one has been evaluated before it, and the order in
which they stand makes no difference to the variables that they leave behind.
-/
namespace Primer

/-- No variable that one of the trees writes is read or written by the other one. -/
def Tree.Independent (s t : Tree) : Prop :=
  ∀ name, (s.Writes name → ¬ t.Reads name ∧ ¬ t.Writes name) ∧
    (t.Writes name → ¬ s.Reads name ∧ ¬ s.Writes name)

theorem Tree.Independent.symm {s t : Tree} (h : s.Independent t) : t.Independent s :=
  fun name => ⟨(h name).2, (h name).1⟩

theorem EndAlike.of_ok {ε σ α : Type} {onError onOk : σ → σ → Prop} {a : α} {s : σ}
    {r : EStateM.Result ε σ α} (h : EndAlike onError onOk (.ok a s) r) :
    ∃ s', r = .ok a s' ∧ onOk s s' := by
  cases h with
  | ok hstates => exact ⟨_, rfl, hstates⟩

section Swap
variable {s t : Tree} {env mid last : Environment} {result result' : Option Value}

theorem get?_of_ok (h : s.eval.run env = .ok result mid) {name : String}
    (hname : ¬ s.Writes name) : mid.get? name = env.get? name := by
  have hfinal := get?_of_not_writes hname env
  rw [h] at hfinal
  exact hfinal

theorem Tree.Independent.agreeOn_reads (h : s.Independent t) (hs : s.eval.run env = .ok result mid) :
    AgreeOn t.Reads mid env := by
  intro name hreads
  refine get?_of_ok hs fun hwrites => ?_
  exact ((h name).1 hwrites).1 hreads

/-- Two independent trees that succeed one after the other also succeed in the other order, with the
same results and the same variables. -/
theorem Tree.Independent.eval_swap (h : s.Independent t) (hs : s.eval.run env = .ok result mid)
    (ht : t.eval.run mid = .ok result' last) :
    ∃ mid', t.eval.run env = .ok result' mid' ∧ s.eval.run mid' = .ok result last := by
  have htAlike := eval_alike (h.agreeOn_reads hs)
  rw [ht] at htAlike
  obtain ⟨mid', ht', hlast⟩ := htAlike.of_ok
  have hreads : AgreeOn s.Reads env mid' := fun name hname =>
    (h.symm.agreeOn_reads ht' name hname).symm
  have hsAlike := eval_alike hreads
  rw [hs] at hsAlike
  obtain ⟨last', hs', hmid⟩ := hsAlike.of_ok
  have heq : last' = last := by
    apply NameMap.ext_get?
    intro name
    by_cases hwrites : s.Writes name
    · calc
        last'.get? name = mid.get? name := (hmid name (.inr hwrites)).symm
        _ = last.get? name := (get?_of_ok ht ((h name).1 hwrites).2).symm
    · calc
        last'.get? name = mid'.get? name := get?_of_ok hs' hwrites
        _ = last.get? name := (hlast name (.inl (get?_of_ok hs hwrites))).symm
  exact ⟨mid', ht', heq ▸ hs'⟩

end Swap

theorem eval_pair_eq_ok_iff {s t : Tree} {line : Nat} {env last : Environment}
    {result : Option Value} :
    (Tree.block [s, t] line).eval.run env = .ok result last ↔
      result = none ∧ ∃ x mid y, s.eval.run env = .ok x mid ∧ t.eval.run mid = .ok y last := by
  simp only [Tree.eval, evalAll, EStateM.run_bind]
  constructor
  · intro h
    cases hs : s.eval.run env with
    | error f mid =>
      rw [hs] at h
      cases h
    | ok x mid =>
      simp only [hs] at h
      cases ht : t.eval.run mid with
      | error f last' =>
        rw [ht] at h
        cases h
      | ok y last' =>
        rw [ht] at h
        cases h
        exact ⟨rfl, x, mid, y, rfl, ht⟩
  · rintro ⟨rfl, x, mid, y, hs, ht⟩
    simp only [hs, ht]
    rfl

/-- Independent statements may stand in either order: the block succeeds in both cases or in none,
and it leaves the same variables with the same values. -/
theorem eval_pair_swap {s t : Tree} (h : s.Independent t) (line line' : Nat) (env : Environment)
    (result : Option Value) (last : Environment) :
    (Tree.block [s, t] line).eval.run env = .ok result last ↔
      (Tree.block [t, s] line').eval.run env = .ok result last := by
  rw [eval_pair_eq_ok_iff, eval_pair_eq_ok_iff]
  constructor
  · rintro ⟨hresult, x, mid, y, hs, ht⟩
    obtain ⟨mid', ht', hs'⟩ := h.eval_swap hs ht
    exact ⟨hresult, y, mid', x, ht', hs'⟩
  · rintro ⟨hresult, y, mid, x, ht, hs⟩
    obtain ⟨mid', hs', ht'⟩ := h.symm.eval_swap ht hs
    exact ⟨hresult, x, mid', y, hs', ht'⟩

/-- Both statements read the same variable and write different ones. -/
theorem eval_pair_swap_common_read :
    ∃ (s t : Tree) (env last : Environment), s.Independent t ∧
      (Tree.block [s, t] 1).eval.run env = .ok none last ∧
      (Tree.block [t, s] 1).eval.run env = .ok none last ∧
      env.get? "x" = none ∧ last.get? "x" = some (.int 7) ∧ last.get? "y" = some (.int (-7)) := by
  let s : Tree := .assignment "x" (.variable "z" 1) 1
  let t : Tree := .declaration "y" "Int" 1 (some (.signed .minus (.variable "z" 1) 1)) 1
  let env : Environment := NameMap.empty.insert "z" (.int 7)
  have hindependent : s.Independent t := by
    intro name
    change (Access.write name ∈ [.read "z", .write "x"] →
        Access.read name ∉ [.read "z", .write "y"] ∧ Access.write name ∉ [.read "z", .write "y"]) ∧
      (Access.write name ∈ [.read "z", .write "y"] →
        Access.read name ∉ [.read "z", .write "x"] ∧ Access.write name ∉ [.read "z", .write "x"])
    constructor
    · intro hname
      obtain rfl : name = "x" := by simpa using hname
      decide
    · intro hname
      obtain rfl : name = "y" := by simpa using hname
      decide
  have hrun : (Tree.block [s, t] 1).eval.run env =
      .ok none ((env.insert "x" (.int 7)).insert "y" (.int (-7))) := by rfl
  exact ⟨s, t, env, _, hindependent, hrun, (eval_pair_swap hindependent 1 1 env _ _).mp hrun,
    by rfl, by rfl, by rfl⟩

end Primer
