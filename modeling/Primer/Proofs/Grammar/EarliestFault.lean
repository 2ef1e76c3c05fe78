import Primer.Proofs.Grammar.Recognition
import Primer.Proofs.Lexing.Steps

/-! # Faults are reported at the earliest token

The end of a text counts as something seen, like a token. What is seen up to some place is viable if
it can go on to a complete text. Reading a text fails at the first place where it is not viable, and
at a lexical fault only if everything before it is viable.
-/
namespace Primer

/-- What stands somewhere in a text: a token or, if there is none, the end. -/
structure Sighting where
  token? : Option Token
  line : Nat
deriving DecidableEq

def Located.sighting (u : Located) : Sighting := ⟨some u.token, u.line⟩

theorem Located.sighting_injective {u v : Located} (h : u.sighting = v.sighting) : u = v := by
  obtain ⟨t, line⟩ := u
  obtain ⟨t', line'⟩ := v
  simpa [sighting] using h

/-- The end of the text, unless a fault stands there. -/
def Ending.sightings : Ending → List Sighting
  | .finish line => [⟨none, line⟩]
  | .fault _ => []

def TokenStream.sightings (s : TokenStream) : List Sighting :=
  s.tokens.map Located.sighting ++ s.ending.sightings

/-- The token that is seen, unless it is the end of the text. -/
def Sighting.located? (seen : Sighting) : Option Located :=
  seen.token?.map fun t => ⟨t, seen.line⟩

theorem TokenStream.filterMap_take_sightings (s : TokenStream) (n : Nat) :
    (s.sightings.take n).filterMap Sighting.located? = s.tokens.take n := by
  have hsome : Sighting.located? ∘ Located.sighting = some := rfl
  have hend : ∀ seen ∈ s.ending.sightings.take (n - s.tokens.length), seen.located? = none := by
    intro seen hseen
    cases hending : s.ending with
    | finish line =>
      rw [hending] at hseen
      cases List.mem_singleton.mp (List.mem_of_mem_take hseen)
      rfl
    | fault f =>
      rw [hending] at hseen
      cases List.mem_of_mem_take hseen
  rw [TokenStream.sightings, List.take_append, List.filterMap_append, ← List.map_take,
    List.filterMap_map, hsome, List.filterMap_some, List.length_map,
    List.filterMap_eq_nil_iff.mpr hend, List.append_nil]

/-- A phrase with the end of the text behind it. -/
def Complete (Phrase : Grammar.Tokens → Tree → Prop) (seen : List Sighting) : Prop :=
  ∃ ts tree line, Phrase ts tree ∧ seen = ts.map Located.sighting ++ [⟨none, line⟩]

def Viable (Phrase : Grammar.Tokens → Tree → Prop) (seen : List Sighting) : Prop :=
  ∃ more, Complete Phrase (seen ++ more)

section Viability
variable {Phrase : Grammar.Tokens → Tree → Prop} {ts : Grammar.Tokens}

theorem Viable.of_append {seen more : List Sighting} (h : Viable Phrase (seen ++ more)) :
    Viable Phrase seen := by
  obtain ⟨rest, hrest⟩ := h
  exact ⟨more ++ rest, by rwa [← List.append_assoc]⟩

theorem map_sighting_inj {us : Grammar.Tokens}
    (h : ts.map Located.sighting = us.map Located.sighting) : ts = us :=
  (List.map_inj_right fun _ _ => Located.sighting_injective).mp h

theorem end_not_mem_map {line : Nat} : (⟨none, line⟩ : Sighting) ∉ ts.map Located.sighting := by
  intro h
  obtain ⟨u, _, hu⟩ := List.mem_map.mp h
  cases hu

theorem viable_tokens_iff :
    Viable Phrase (ts.map Located.sighting) ↔ ∃ more tree, Phrase (ts ++ more) tree := by
  constructor
  · rintro ⟨more, us, tree, line, hphrase, heq⟩
    rcases List.append_eq_append_iff.mp heq with ⟨vs, hus, _⟩ | ⟨vs, hts, hend⟩
    · obtain ⟨ws, ws', rfl, hws, _⟩ := List.map_eq_append_iff.mp hus
      rw [map_sighting_inj hws] at hphrase
      exact ⟨ws', tree, hphrase⟩
    · rcases vs with _ | ⟨v, vs⟩
      · rw [List.append_nil] at hts
        rw [← map_sighting_inj hts] at hphrase
        exact ⟨[], tree, by rwa [List.append_nil]⟩
      · simp only [List.cons_append, List.cons.injEq] at hend
        have hmem : (⟨none, line⟩ : Sighting) ∈ ts.map Located.sighting := by
          rw [hts, ← hend.1]
          simp
        exact absurd hmem end_not_mem_map
  · rintro ⟨more, tree, hphrase⟩
    exact ⟨more.map Located.sighting ++ [⟨none, 1⟩], _, tree, 1, hphrase, by simp⟩

theorem viable_end_iff {line : Nat} :
    Viable Phrase (ts.map Located.sighting ++ [⟨none, line⟩]) ↔ ∃ tree, Phrase ts tree := by
  constructor
  · rintro ⟨more, us, tree, line', hphrase, heq⟩
    have hnot : ∀ rest, us.map Located.sighting ≠ ts.map Located.sighting ++ [⟨none, line⟩] ++ rest := by
      intro rest hus
      have hmem : (⟨none, line⟩ : Sighting) ∈ us.map Located.sighting := by simp [hus]
      exact end_not_mem_map hmem
    rcases List.append_eq_append_iff.mp heq with ⟨vs, hus, _⟩ | ⟨vs, hts, hend⟩
    · exact absurd hus (hnot vs)
    · rcases vs with _ | ⟨v, vs⟩
      · exact absurd (by simpa using hts.symm) (hnot [])
      · have hvs : vs = [] := by
          have hlength := congrArg List.length hend
          simp only [List.length_cons, List.length_append, List.length_nil] at hlength
          exact List.eq_nil_of_length_eq_zero (by omega)
        subst hvs
        have hsame := (List.append_singleton_inj.mp hts).1
        exact ⟨tree, map_sighting_inj hsame ▸ hphrase⟩
  · rintro ⟨tree, hphrase⟩
    exact ⟨[], ts, tree, line, hphrase, by simp⟩

end Viability

/-- How the reading of a text ends, and what of it is viable. -/
inductive Verdict (Phrase : Grammar.Tokens → Tree → Prop) (s : TokenStream) :
    Except SourceFault Tree → Prop
  | accepted {tree : Tree} {line : Nat} (hend : s.ending = .finish line)
      (hviable : Viable Phrase s.sightings) : Verdict Phrase s (.ok tree)
  | lexical {f : LexicalFault} (hend : s.ending = .fault f)
      (hviable : Viable Phrase s.sightings) : Verdict Phrase s (.error (.lexical f))
  | unexpected (before after : List Sighting) (seen : Sighting) {e : Expectation}
      (hs : s.sightings = before ++ seen :: after) (hbefore : Viable Phrase before)
      (hseen : ¬ Viable Phrase (before ++ [seen])) :
      Verdict Phrase s (.error (.unexpected e seen.token? seen.line))

namespace Grammar
variable {Phrase : Tokens → Tree → Prop} {read : Reader Tree}

theorem Opens.viable {used : Tokens} {e : Expectation} (h : Opens Phrase used e) :
    ∃ more tree, Phrase (used ++ more) tree := by
  obtain ⟨t, ht⟩ := Expectation.exists_admits h.1
  obtain ⟨more, tree, hphrase⟩ := h.2 ⟨t, 1⟩ ht
  exact ⟨_, tree, hphrase⟩

theorem verdict_refusal {tokens used rest : Tokens} {ending : Ending} {e : Expectation}
    (hts : tokens = used ++ rest) (hused : ∃ more tree, Phrase (used ++ more) tree)
    (hrest : ∀ others tree, others.head? = rest.head? → ¬ Phrase (used ++ others) tree) :
    Verdict Phrase ⟨tokens, ending⟩ (.error (Grammar.unexpected ending rest e)) := by
  have hbefore : Viable Phrase (used.map Located.sighting) := viable_tokens_iff.mpr hused
  rcases rest with _ | ⟨u, rest⟩
  · rw [List.append_nil] at hts
    subst hts
    cases ending with
    | fault f => exact .lexical rfl (by simpa [TokenStream.sightings, Ending.sightings] using hbefore)
    | finish line =>
      refine .unexpected _ [] ⟨none, line⟩ rfl hbefore ?_
      rw [viable_end_iff]
      rintro ⟨tree, hphrase⟩
      exact hrest [] tree rfl (by rwa [List.append_nil])
  · subst hts
    refine .unexpected _ (rest.map Located.sighting ++ ending.sightings) u.sighting
      (by simp [TokenStream.sightings]) hbefore ?_
    have hmap : used.map Located.sighting ++ [u.sighting] = (used ++ [u]).map Located.sighting := by
      simp
    rw [hmap, viable_tokens_iff]
    rintro ⟨more, tree, hphrase⟩
    rw [List.append_assoc] at hphrase
    exact hrest (u :: more) tree rfl hphrase

/-- Behind what the reader has accepted, no phrase goes on as the text does: it would be read to its
end, but the reader stops where it did here. -/
theorem Recognises.not_phrase_of_ok (hread : Recognises read Phrase) {used rest : Tokens} {u : Located}
    {a : Tree} (hok : ∀ ending others, others.head? = (u :: rest).head? →
      read ending (used ++ others) = .ok (a, others)) :
    ∀ others tree, others.head? = (u :: rest).head? → ¬ Phrase (used ++ others) tree := by
  intro others tree hhead hlonger
  have h := (hok (.finish 1) others hhead).symm.trans (hread.complete hlonger (.finish 1))
  cases h
  cases hhead

theorem Recognises.not_phrase_of_error (hread : Recognises read Phrase) {used rest : Tokens}
    {e : Expectation} (herror : ∀ ending others, others.head? = rest.head? →
      read ending (used ++ others) = .error (Grammar.unexpected ending others e)) :
    ∀ others tree, others.head? = rest.head? → ¬ Phrase (used ++ others) tree := by
  intro others tree hhead hphrase
  have h := (herror (.finish 1) others hhead).symm.trans (hread.complete hphrase (.finish 1))
  cases h

theorem verdict_wholeText (hread : Recognises read Phrase) (s : TokenStream) :
    Verdict Phrase s (wholeText read s) := by
  obtain ⟨tokens, ending⟩ := s
  cases hread.decision tokens with
  | accepts used rest a hts hphrase hok =>
    have hwhole : wholeText read ⟨tokens, ending⟩ = finish ending rest a := by
      simp only [wholeText, hts, hok ending rest rfl]
    rw [hwhole]
    rcases rest with _ | ⟨u, rest⟩
    · rw [List.append_nil] at hts
      subst hts
      cases ending with
      | finish line => exact .accepted rfl (viable_end_iff.mpr ⟨a, hphrase⟩)
      | fault f =>
        refine .lexical rfl ?_
        simpa [TokenStream.sightings, Ending.sightings] using
          viable_tokens_iff.mpr ⟨[], a, by rwa [List.append_nil]⟩
    · exact verdict_refusal hts ⟨[], a, by rwa [List.append_nil]⟩ (hread.not_phrase_of_ok hok)
  | refuses used rest e hts hopen herror =>
    have hwhole : wholeText read ⟨tokens, ending⟩ = .error (Grammar.unexpected ending rest e) := by
      simp only [wholeText, hts, herror ending rest rfl]
    rw [hwhole]
    exact verdict_refusal hts hopen.viable (hread.not_phrase_of_error herror)

end Grammar

/-- The result of reading a text is settled by the first place where what is seen is not viable. If
there is none, it is settled by how the text ends. -/
structure SettledEarliest (Phrase : Grammar.Tokens → Tree → Prop) (s : TokenStream)
    (result : Except Fault Tree) : Prop where
  unexpected : (∃ k < s.sightings.length, ¬ Viable Phrase (s.sightings.take (k + 1))) →
    ∃ k seen e, s.sightings[k]? = some seen ∧ ¬ Viable Phrase (s.sightings.take (k + 1)) ∧
      (∀ j < k, Viable Phrase (s.sightings.take (j + 1))) ∧
      result = .error (.source (.unexpected e seen.token? seen.line))
  lexical : (∀ k < s.sightings.length, Viable Phrase (s.sightings.take (k + 1))) →
    ∀ f, s.toTokenList = .error f → result = .error (.source (.lexical f))
  accepted : (∀ k < s.sightings.length, Viable Phrase (s.sightings.take (k + 1))) →
    ∀ l, s.toTokenList = .ok l → ∃ tree, result = .ok tree
  toTokenList_of_ok : ∀ tree, result = .ok tree → ∃ l, s.toTokenList = .ok l
  toTokenList_of_lexical : ∀ f, result = .error (.source (.lexical f)) → s.toTokenList = .error f

theorem Viable.take {Phrase : Grammar.Tokens → Tree → Prop} {seen : List Sighting}
    (h : Viable Phrase seen) (k : Nat) : Viable Phrase (seen.take k) := by
  rw [← List.take_append_drop k seen] at h
  exact h.of_append

theorem Verdict.settledEarliest {Phrase : Grammar.Tokens → Tree → Prop} {s : TokenStream}
    {result : Except SourceFault Tree} (h : Verdict Phrase s result) :
    SettledEarliest Phrase s (result.mapError .source) := by
  cases h with
  | @accepted tree line hend hviable =>
    have hlist : s.toTokenList = .ok ⟨s.tokens, line⟩ := by simp only [TokenStream.toTokenList, hend]
    constructor
    · rintro ⟨k, _, hk⟩
      exact absurd (hviable.take _) hk
    · intro _ f hf
      rw [hlist] at hf
      cases hf
    · intro _ l _
      exact ⟨tree, rfl⟩
    · intro _ _
      exact ⟨_, hlist⟩
    · intro f hf
      cases hf
  | @lexical f hend hviable =>
    have hlist : s.toTokenList = .error f := by simp only [TokenStream.toTokenList, hend]
    constructor
    · rintro ⟨k, _, hk⟩
      exact absurd (hviable.take _) hk
    · intro _ g hg
      rw [hlist] at hg
      cases hg
      rfl
    · intro _ l hl
      rw [hlist] at hl
      cases hl
    · intro _ hok
      cases hok
    · intro g hg
      cases hg
      exact hlist
  | @unexpected before after seen e hs hbefore hseen =>
    have htake : s.sightings.take (before.length + 1) = before ++ [seen] := by
      rw [hs, List.take_length_add_append]
      rfl
    have hlength : before.length < s.sightings.length := by simp [hs]
    have hnot : ¬ ∀ k < s.sightings.length, Viable Phrase (s.sightings.take (k + 1)) := by
      intro hall
      exact hseen (htake ▸ hall before.length hlength)
    constructor
    · intro _
      refine ⟨before.length, seen, e, by simp [hs], htake ▸ hseen, ?_, rfl⟩
      intro j hj
      have hprefix : s.sightings.take (j + 1) = before.take (j + 1) := by
        rw [hs, List.take_append_of_le_length hj]
      exact hprefix ▸ hbefore.take _
    · intro hall
      exact absurd hall hnot
    · intro hall
      exact absurd hall hnot
    · intro _ hok
      cases hok
    · intro f hf
      cases hf

/-- With the tokens that repeated reading finds up to the end of the text or the first lexical fault,
the text of a program or an expression is refused at the first place that is not viable, else for
that lexical fault, and else accepted. -/
theorem parse_settledEarliest (source : String) :
    (Cursor.ofString source).readings ((TokenStream.ofString source).tokens.length + 1) =
      (TokenStream.ofString source).readings ∧
    SettledEarliest Derivation.Program (TokenStream.ofString source) (Program.parse source) ∧
    SettledEarliest Derivation.Expression (TokenStream.ofString source)
      (Expression.parse source) := by
  refine ⟨TokenStream.readings_ofCursor _, ?_, ?_⟩
  · rw [Program.parse, Grammar.program_eq_wholeText]
    exact (Grammar.verdict_wholeText Grammar.recognises_program _).settledEarliest
  · rw [Expression.parse, Grammar.expression_eq_wholeText]
    exact (Grammar.verdict_wholeText Grammar.recognises_expression _).settledEarliest

end Primer
