import Primer.Proofs.Grammar.Derivation
import Primer.Proofs.Grammar.Reading

/-! # What a reader decides, and on which tokens

A reader uses some tokens and then accepts them as a phrase of the grammar or refuses the next token.
In both cases the decision rests on the tokens used and the one behind them alone, and any others may
stand further on. A token is refused only where each token that the reader names as expected could
have stood.
-/
namespace Primer.Grammar
open Reader Primer.Derivation

variable {α β : Type}

/-- Each token that the expectation names can follow the tokens in some phrase. -/
structure Opens (Phrase : Tokens → α → Prop) (used : Tokens) (e : Expectation) : Prop where
  ne_endOfInput : e ≠ .endOfInput
  exists_phrase : ∀ u : Located, e.admits u.token = true → ∃ more a, Phrase (used ++ u :: more) a

inductive Decision (read : Reader α) (Phrase : Tokens → α → Prop) (ts : Tokens) : Prop
  | accepts (used rest : Tokens) (a : α) (hts : ts = used ++ rest) (hphrase : Phrase used a)
      (hread : ∀ ending others, others.head? = rest.head? →
        read ending (used ++ others) = .ok (a, others))
  | refuses (used rest : Tokens) (e : Expectation) (hts : ts = used ++ rest)
      (hopen : Opens Phrase used e)
      (hread : ∀ ending others, others.head? = rest.head? →
        read ending (used ++ others) = .error (unexpected ending others e))

/-- Behind whatever stands for `a`, the tokens complete a phrase for `b`. -/
def Completes (Start : Tokens → α → Prop) (Phrase : Tokens → β → Prop) (a : α) (ts : Tokens)
    (b : β) : Prop :=
  ∀ us, Start us a → Phrase (us ++ ts) b

theorem head?_append_congr {us vs ts : Tokens} (h : us.head? = vs.head?) :
    (ts ++ us).head? = (ts ++ vs).head? := by
  cases ts with
  | nil => exact h
  | cons t ts => rfl

namespace Decision
variable {read next : Reader α} {P R : Tokens → α → Prop} {ts : Tokens}

theorem stop {a : α} (hphrase : P [] a)
    (hread : ∀ ending others, others.head? = ts.head? → read ending others = .ok (a, others)) :
    Decision read P ts :=
  .accepts [] ts a rfl hphrase hread

theorem refuse {e : Expectation} (hopen : Opens P [] e)
    (hread : ∀ ending others, others.head? = ts.head? →
      read ending others = .error (unexpected ending others e)) :
    Decision read P ts :=
  .refuses [] ts e rfl hopen hread

theorem cons {u : Located} (h : Decision next P ts)
    (hread : ∀ ending rest, read ending (u :: rest) = next ending rest)
    (hjoin : ∀ {us a}, P us a → R (u :: us) a) : Decision read R (u :: ts) := by
  cases h with
  | accepts used rest a hts hphrase hnext =>
    refine .accepts (u :: used) rest a (by rw [hts, List.cons_append]) (hjoin hphrase) ?_
    intro ending others hhead
    rw [List.cons_append, hread, hnext ending others hhead]
  | refuses used rest e hts hopen hnext =>
    refine .refuses (u :: used) rest e (by rw [hts, List.cons_append]) ⟨hopen.1, ?_⟩ ?_
    · intro v hv
      obtain ⟨more, a, hphrase⟩ := hopen.2 v hv
      exact ⟨more, a, hjoin hphrase⟩
    · intro ending others hhead
      rw [List.cons_append, hread, hnext ending others hhead]

/-- Readers in sequence. The second one decides on what the first one has left, and whatever the
first one has read can be completed. -/
theorem andThen {first : Reader α} {second : α → Reader β} {Q : α → Tokens → β → Prop}
    {R : Tokens → β → Prop} (hfirst : Decision first P ts)
    (hsecond : ∀ used rest a, ts = used ++ rest → P used a → Decision (second a) (Q a) rest)
    (hjoin : ∀ {us vs a b}, P us a → Q a vs b → R (us ++ vs) b)
    (hfinish : ∀ {us a}, P us a → ∃ vs b, Q a vs b) : Decision (first.andThen second) R ts := by
  cases hfirst with
  | refuses used rest e hts hopen hread =>
    refine .refuses used rest e hts ⟨hopen.1, ?_⟩ ?_
    · intro u hu
      obtain ⟨more, a, hphrase⟩ := hopen.2 u hu
      obtain ⟨vs, b, hrest⟩ := hfinish hphrase
      exact ⟨more ++ vs, b, by simpa using hjoin hphrase hrest⟩
    · intro ending others hhead
      exact andThen_error (hread ending others hhead)
  | accepts used rest a hts hphrase hread =>
    have hstep : ∀ ending vs others, (vs ++ others).head? = rest.head? →
        first.andThen second ending (used ++ vs ++ others) = second a ending (vs ++ others) := by
      intro ending vs others hhead
      rw [List.append_assoc]
      exact andThen_ok (hread ending _ hhead)
    cases hsecond used rest a hts hphrase with
    | accepts vs last b hrest hphrase' hread' =>
      refine .accepts (used ++ vs) last b (by rw [hts, hrest, List.append_assoc])
        (hjoin hphrase hphrase') ?_
      intro ending others hhead
      rw [hstep ending vs others (by rw [hrest]; exact head?_append_congr hhead),
        hread' ending others hhead]
    | refuses vs last e hrest hopen hread' =>
      refine .refuses (used ++ vs) last e (by rw [hts, hrest, List.append_assoc]) ⟨hopen.1, ?_⟩ ?_
      · intro u hu
        obtain ⟨more, b, hphrase'⟩ := hopen.2 u hu
        exact ⟨more, b, by simpa using hjoin hphrase hphrase'⟩
      · intro ending others hhead
        rw [hstep ending vs others (by rw [hrest]; exact head?_append_congr hhead),
          hread' ending others hhead]

theorem complete {first : Reader α} {second : α → Reader β} {R : Tokens → β → Prop}
    (hfirst : Decision first P ts)
    (hsecond : ∀ used rest a, ts = used ++ rest → Decision (second a) (Completes P R a) rest)
    (hfinish : ∀ a, ∃ vs b, Completes P R a vs b) : Decision (first.andThen second) R ts :=
  hfirst.andThen (fun used rest a hts _ => hsecond used rest a hts) (fun h hrest => hrest _ h)
    fun _ => hfinish _

theorem map {f : α → β} {R : Tokens → β → Prop} (h : Decision read P ts)
    (hjoin : ∀ {us a}, P us a → R us (f a)) :
    Decision (read.andThen fun a => give (f a)) R ts := by
  refine h.andThen (Q := fun a vs b => vs = [] ∧ b = f a) ?_ ?_ ?_
  · intro used rest a _ _
    exact .stop ⟨rfl, rfl⟩ fun _ _ _ => rfl
  · rintro us vs a b hphrase ⟨rfl, rfl⟩
    simpa using hjoin hphrase
  · intro us a _
    exact ⟨[], f a, rfl, rfl⟩

theorem take {kind : Located → Option α} {e : Expectation} (hne : e ≠ .endOfInput)
    (hadmits : ∀ u, e.admits u.token = true → ∃ a, kind u = some a) :
    Decision (take kind e) (fun us a => ∃ u, us = [u] ∧ kind u = some a) ts := by
  have hrefuse : (∀ u ∈ ts.head?, kind u = none) →
      Decision (Reader.take kind e) (fun us a => ∃ u, us = [u] ∧ kind u = some a) ts := by
    intro hnone
    refine .refuse ⟨hne, ?_⟩ ?_
    · intro u hu
      obtain ⟨a, ha⟩ := hadmits u hu
      exact ⟨[], a, u, rfl, ha⟩
    · intro ending others hhead
      exact take_of_none (hhead ▸ hnone)
  rcases ts with _ | ⟨u, rest⟩
  · exact hrefuse (by simp)
  · cases hu : kind u with
    | none => exact hrefuse (by simpa using hu)
    | some a =>
      refine .accepts [u] rest a rfl ⟨u, rfl, hu⟩ ?_
      intro ending others _
      simp only [Reader.take, List.cons_append, List.nil_append, hu]

theorem mono (h : Decision read P ts) (hpr : ∀ {us a}, P us a → R us a) : Decision read R ts := by
  cases h with
  | accepts used rest a hts hphrase hread => exact .accepts used rest a hts (hpr hphrase) hread
  | refuses used rest e hts hopen hread =>
    refine .refuses used rest e hts ⟨hopen.1, ?_⟩ hread
    intro u hu
    obtain ⟨more, a, hphrase⟩ := hopen.2 u hu
    exact ⟨more, a, hpr hphrase⟩

theorem token {t : Token} {e : Expectation} (he : e ∈ Expectation.single)
    (ht : e.admits t = true) :
    Decision (Reader.take (isToken t) e) (fun us _ => ∃ line, us = [⟨t, line⟩]) ts := by
  have hne : e ≠ .endOfInput := by
    rintro rfl
    cases ht
  refine (take hne fun u hu => ⟨(), if_pos (Expectation.eq_of_admits he hu ht)⟩).mono ?_
  rintro us ⟨⟩ ⟨⟨u, line⟩, rfl, hu⟩
  have hut : u = t := by
    by_cases h : u = t
    · exact h
    · simp [h] at hu
  exact ⟨line, by rw [hut]⟩

theorem name {e : Expectation} (he : e = .variableName ∨ e = .procedureName) :
    Decision (Reader.take name? e) (fun us x => us = [⟨.name x.1, x.2⟩]) ts := by
  have hne : e ≠ .endOfInput := by
    rcases he with rfl | rfl <;> decide
  refine (take hne ?_).mono ?_
  · rintro ⟨u, line⟩ hu
    cases u with
    | name x => exact ⟨(x, line), rfl⟩
    | _ => rcases he with rfl | rfl <;> cases hu
  · rintro us x ⟨⟨u, line⟩, rfl, hu⟩
    cases u <;> cases hu
    rfl

theorem typeName :
    Decision (Reader.take type? .typeName) (fun us t => us = [⟨.type t.1, t.2⟩]) ts := by
  refine (take (by decide) ?_).mono ?_
  · rintro ⟨u, line⟩ hu
    cases u with
    | type t => exact ⟨(t, line), rfl⟩
    | _ => cases hu
  · rintro us t ⟨⟨u, line⟩, rfl, hu⟩
    cases u <;> cases hu
    rfl

end Decision

end Primer.Grammar
