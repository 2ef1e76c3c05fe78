import Primer.Proofs.Grammar.EarliestFault

/-! # Every token that a message expects could have stood there

Where a token is refused, the message says what was expected in its place. These words are a
promise: with any of the tokens that they stand for, the tokens before the refused one can go on to a
text that is accepted, however many blocks, procedures and parentheses are still open. Where the end
of the text was expected, the tokens before are accepted as they are.
-/
namespace Primer

/-- What the words of a message stand for: tokens, or the end of the text. -/
inductive Named : String → Option Token → Prop
  | main : Named "'main'" (some (.keyword .main))
  | equals : Named "'='" (some (.mark .equals))
  | colon : Named "':'" (some (.mark .colon))
  | closeParen : Named "')'" (some (.mark .closeParen))
  | semicolon : Named "';' or '\x7d'" (some (.mark .semicolon))
  | closeBrace : Named "';' or '\x7d'" (some (.mark .closeBrace))
  | type (t : BasicType) : Named "type name 'Int' or 'Float'" (some (.type t))
  | variableName (x : String) : Named "variable name" (some (.name x))
  | procedureName (x : String) : Named "procedure name" (some (.name x))
  | int (n : Int64) : Named "an expression" (some (.int n))
  | float (x : Float) : Named "an expression" (some (.float x))
  | name (x : String) : Named "an expression" (some (.name x))
  | openParen : Named "an expression" (some (.mark .openParen))
  | plus : Named "an expression" (some (.mark .plus))
  | minus : Named "an expression" (some (.mark .minus))
  | endOfInput : Named "end of input" none

/-- What the expectation asks for, the end of the text included. -/
def Expectation.asksFor (e : Expectation) : Option Token → Bool
  | some t => e.admits t
  | none => e = .endOfInput

theorem Expectation.text_injective {e e' : Expectation} (h : e.text = e'.text) : e = e' := by
  revert h
  cases e <;> cases e' <;> decide

theorem Named.exists_expectation {words : String} {seen : Option Token} (h : Named words seen) :
    ∃ e : Expectation, e.text = words ∧ e.asksFor seen = true := by
  cases h with
  | main => exact ⟨.main, by decide, rfl⟩
  | equals => exact ⟨.equals, by decide, rfl⟩
  | colon => exact ⟨.colon, by decide, rfl⟩
  | closeParen => exact ⟨.closeParen, by decide, rfl⟩
  | semicolon => exact ⟨.separator, by decide, rfl⟩
  | closeBrace => exact ⟨.separator, by decide, rfl⟩
  | type => exact ⟨.typeName, by decide, rfl⟩
  | variableName => exact ⟨.variableName, by decide, rfl⟩
  | procedureName => exact ⟨.procedureName, by decide, rfl⟩
  | int => exact ⟨.expression, by decide, rfl⟩
  | float => exact ⟨.expression, by decide, rfl⟩
  | name => exact ⟨.expression, by decide, rfl⟩
  | openParen => exact ⟨.expression, by decide, rfl⟩
  | plus => exact ⟨.expression, by decide, rfl⟩
  | minus => exact ⟨.expression, by decide, rfl⟩
  | endOfInput => exact ⟨.endOfInput, by decide, rfl⟩

theorem Named.asksFor {e : Expectation} {seen : Option Token} (h : Named e.text seen) :
    e.asksFor seen = true := by
  obtain ⟨e', htext, hasks⟩ := h.exists_expectation
  rwa [Expectation.text_injective htext] at hasks

theorem Expectation.exists_named (e : Expectation) : ∃ seen, Named e.text seen := by
  cases e with
  | main => exact ⟨_, .main⟩
  | equals => exact ⟨_, .equals⟩
  | colon => exact ⟨_, .colon⟩
  | closeParen => exact ⟨_, .closeParen⟩
  | separator => exact ⟨_, .semicolon⟩
  | typeName => exact ⟨_, .type .int⟩
  | variableName => exact ⟨_, .variableName "x"⟩
  | procedureName => exact ⟨_, .procedureName "x"⟩
  | expression => exact ⟨_, .openParen⟩
  | endOfInput => exact ⟨_, .endOfInput⟩

/-- The tokens are read as a text that ends behind them. -/
def Accepted (read : TokenStream → Except SourceFault Tree) (ts : Grammar.Tokens) : Prop :=
  ∃ tree, ∀ line, read ⟨ts, .finish line⟩ = .ok tree

/-- Some text that is accepted starts with the tokens and goes on with what is seen next. -/
def MayFollow (read : TokenStream → Except SourceFault Tree) (before : Grammar.Tokens)
    (seen : Sighting) : Prop :=
  match seen.token? with
  | some t => ∃ more, Accepted read (before ++ ⟨t, seen.line⟩ :: more)
  | none => Accepted read before

/-- The reading stops at the place `k`. What stands there may not follow the tokens before it, and
all that is named as expected may. -/
structure RefusedAt (read : TokenStream → Except SourceFault Tree) (s : TokenStream) (k : Nat)
    (e : Expectation) (found : Sighting) : Prop where
  place : s.sightings[k]? = some found
  refused : ¬ MayFollow read (s.tokens.take k) found
  named : ∃ seen, Named e.text seen
  honest : ∀ seen : Sighting, Named e.text seen.token? → MayFollow read (s.tokens.take k) seen

namespace Grammar
variable {Phrase : Tokens → Tree → Prop} {read : Reader Tree} {s : TokenStream} {used rest : Tokens}
  {e : Expectation} {found : Sighting}

theorem accepted_iff (hread : Recognises read Phrase) {ts : Tokens} :
    Accepted (wholeText read) ts ↔ ∃ tree, Phrase ts tree := by
  constructor
  · rintro ⟨tree, hok⟩
    obtain ⟨l, hl, hphrase⟩ := (wholeText_eq_ok_iff hread).mp (hok 1)
    cases hl
    exact ⟨tree, hphrase⟩
  · rintro ⟨tree, hphrase⟩
    exact ⟨tree, fun line => (wholeText_eq_ok_iff hread).mpr ⟨⟨ts, line⟩, rfl, hphrase⟩⟩

theorem mayFollow_iff (hread : Recognises read Phrase) {before : Tokens} {seen : Sighting} :
    MayFollow (wholeText read) before seen ↔
      Viable Phrase (before.map Located.sighting ++ [seen]) := by
  obtain ⟨token?, line⟩ := seen
  cases token? with
  | none => rw [viable_end_iff, ← accepted_iff hread, MayFollow]
  | some t =>
    have hmap : before.map Located.sighting ++ [⟨some t, line⟩] =
        (before ++ [(⟨t, line⟩ : Located)]).map Located.sighting := by
      simp [Located.sighting]
    simp only [hmap, viable_tokens_iff, MayFollow, accepted_iff hread, List.append_assoc,
      List.singleton_append]

theorem refusedAt_of_unexpected (hread : Recognises read Phrase) (hs : s.tokens = used ++ rest)
    (hfault : unexpected s.ending rest e = .unexpected e found.token? found.line)
    (hrest : ∀ others tree, others.head? = rest.head? → ¬ Phrase (used ++ others) tree)
    (hhonest : ∀ seen : Sighting, e.asksFor seen.token? = true →
      Viable Phrase (used.map Located.sighting ++ [seen])) :
    RefusedAt (wholeText read) s used.length e found := by
  obtain ⟨tokens, ending⟩ := s
  obtain rfl : tokens = used ++ rest := hs
  have htake : (used ++ rest).take used.length = used := List.take_left
  have hseen : (TokenStream.mk (used ++ rest) ending).sightings[used.length]? = some found ∧
      ¬ Viable Phrase (used.map Located.sighting ++ [found]) := by
    obtain ⟨token?, line⟩ := found
    rcases rest with _ | ⟨u, rest⟩
    · cases ending with
      | fault f => cases hfault
      | finish last =>
        cases hfault
        refine ⟨by simp [TokenStream.sightings, Ending.sightings], ?_⟩
        rw [viable_end_iff]
        rintro ⟨tree, hphrase⟩
        exact hrest [] tree rfl (by rwa [List.append_nil])
    · cases hfault
      refine ⟨by simp [TokenStream.sightings, Located.sighting], ?_⟩
      have hmap : used.map Located.sighting ++ [⟨some u.token, u.line⟩] =
          (used ++ [u]).map Located.sighting := by
        simp [Located.sighting]
      rw [hmap, viable_tokens_iff]
      rintro ⟨more, tree, hphrase⟩
      rw [List.append_assoc] at hphrase
      exact hrest (u :: more) tree rfl hphrase
  refine ⟨hseen.1, ?_, e.exists_named, ?_⟩
  · rw [htake, mayFollow_iff hread]
    exact hseen.2
  · intro seen hnamed
    rw [htake, mayFollow_iff hread]
    exact hhonest seen hnamed.asksFor

theorem Opens.viable_of_asksFor (h : Opens Phrase used e) {seen : Sighting}
    (hseen : e.asksFor seen.token? = true) :
    Viable Phrase (used.map Located.sighting ++ [seen]) := by
  obtain ⟨token?, line⟩ := seen
  cases token? with
  | none => exact absurd (of_decide_eq_true hseen) h.ne_endOfInput
  | some t =>
    obtain ⟨more, tree, hphrase⟩ := h.exists_phrase ⟨t, line⟩ hseen
    have hviable : Viable Phrase ((used ++ [(⟨t, line⟩ : Located)]).map Located.sighting) :=
      viable_tokens_iff.mpr ⟨more, tree, by rwa [List.append_assoc]⟩
    simpa [Located.sighting] using hviable

theorem viable_of_asksFor_end {tree : Tree} (h : Phrase used tree) {seen : Sighting}
    (hseen : Expectation.endOfInput.asksFor seen.token? = true) :
    Viable Phrase (used.map Located.sighting ++ [seen]) := by
  obtain ⟨token?, line⟩ := seen
  cases token? with
  | none => exact viable_end_iff.mpr ⟨tree, h⟩
  | some t => cases hseen

theorem unexpected_inj {ending : Ending} {e' : Expectation} {token? : Option Token} {line : Nat}
    (h : unexpected ending rest e = .unexpected e' token? line) : e = e' := by
  rcases rest with _ | ⟨u, rest⟩
  · cases ending <;> cases h
    rfl
  · cases h
    rfl

theorem exists_refusedAt (hread : Recognises read Phrase) {token? : Option Token} {line : Nat}
    (h : wholeText read s = .error (.unexpected e token? line)) :
    ∃ k, RefusedAt (wholeText read) s k e ⟨token?, line⟩ := by
  cases hread.decision s.tokens with
  | refuses used rest e' hs hopen herror =>
    have hwhole : wholeText read s = .error (unexpected s.ending rest e') := by
      simp only [wholeText, hs, herror s.ending rest rfl]
    have hfault := Except.error.inj (hwhole.symm.trans h)
    obtain rfl := unexpected_inj hfault
    exact ⟨_, refusedAt_of_unexpected hread hs hfault (hread.not_phrase_of_error herror)
      fun seen => hopen.viable_of_asksFor⟩
  | accepts used rest a hs hphrase hok =>
    have hwhole : wholeText read s = finish s.ending rest a := by
      simp only [wholeText, hs, hok s.ending rest rfl]
    have hfinish := hwhole.symm.trans h
    rcases rest with _ | ⟨u, rest⟩
    · cases hending : s.ending with
      | finish last =>
        rw [hending] at hfinish
        cases hfinish
      | fault f =>
        rw [hending] at hfinish
        cases hfinish
    · have hfault : unexpected s.ending (u :: rest) .endOfInput = .unexpected e token? line :=
        Except.error.inj hfinish
      obtain rfl := unexpected_inj hfault
      exact ⟨_, refusedAt_of_unexpected hread hs hfault (hread.not_phrase_of_ok hok)
        fun seen => viable_of_asksFor_end hphrase⟩

end Grammar

theorem error_of_mapError_source {r : Except SourceFault Tree} {f : SourceFault}
    (h : r.mapError Fault.source = .error (.source f)) : r = .error f := by
  cases r with
  | ok tree => cases h
  | error g =>
    cases h
    rfl

/-- Where the text of a program or of an expression is refused, it could have gone on with each
token that the message names as expected, and it could have ended there if the message expects its
end. -/
theorem parse_error_refusedAt (source : String) (e : Expectation) (found : Sighting) :
    (Program.parse source = .error (.source (.unexpected e found.token? found.line)) →
      ∃ k, RefusedAt TokenStream.program (TokenStream.ofString source) k e found) ∧
    (Expression.parse source = .error (.source (.unexpected e found.token? found.line)) →
      ∃ k, RefusedAt TokenStream.expression (TokenStream.ofString source) k e found) := by
  have hprogram : TokenStream.program = Grammar.wholeText Grammar.readProgram :=
    funext Grammar.program_eq_wholeText
  have hexpression : TokenStream.expression = Grammar.wholeText (Grammar.readOperation .sum) :=
    funext Grammar.expression_eq_wholeText
  constructor
  · intro hparse
    have hread := error_of_mapError_source hparse
    rw [hprogram] at hread ⊢
    exact Grammar.exists_refusedAt Grammar.recognises_program hread
  · intro hparse
    have hread := error_of_mapError_source hparse
    rw [hexpression] at hread ⊢
    exact Grammar.exists_refusedAt Grammar.recognises_expression hread

section
open Grammar Reader

/-- The parenthesis is open inside of a procedure and two blocks, and it may still be closed. -/
theorem parse_error_refusedAt_open_parenthesis :
    Program.parse "main \x7bproc p \x7bx = (1\x7d\x7d" =
      .error (.source (.unexpected .closeParen (some (.mark .closeBrace)) 1)) ∧
    ∃ k, RefusedAt TokenStream.program (TokenStream.ofString "main \x7bproc p \x7bx = (1\x7d\x7d") k
      .closeParen ⟨some (.mark .closeBrace), 1⟩ := by
  let ending : Ending := .finish 1
  let fault : SourceFault := .unexpected .closeParen (some (.mark .closeBrace)) 1
  let closers : Tokens := [⟨.mark .closeBrace, 1⟩, ⟨.mark .closeBrace, 1⟩]
  let sum : Tokens := ⟨.mark .openParen, 1⟩ :: ⟨.int 1, 1⟩ :: closers
  let body : Tokens := ⟨.mark .openBrace, 1⟩ :: ⟨.name "x", 1⟩ :: ⟨.mark .equals, 1⟩ :: sum
  have hstream : TokenStream.ofString "main \x7bproc p \x7bx = (1\x7d\x7d" =
      ⟨⟨.keyword .main, 1⟩ :: ⟨.mark .openBrace, 1⟩ :: ⟨.keyword .proc, 1⟩ :: ⟨.name "p", 1⟩ :: body,
        ending⟩ :=
    TokenStream.ofCursor_eq (by rfl)
  have hone : readOperation .sum ending (⟨.int 1, 1⟩ :: closers) =
      .ok (.literal (.int 1) 1, closers) :=
    @readOperation_eq_ok [⟨.int 1, 1⟩] closers _ ending (.one (.one .int))
      (AtMark.noOperator (atMark_cons (by decide)))
  have hfactor : readFactor ending sum = .error fault := by
    rw [readFactor_parens, andThen_ok hone]
    rfl
  have hsum : readOperation .sum ending sum = .error fault := by
    rw [readOperation_eq, readOperand_sum, readOperation_eq, readOperand_product,
      andThen_error (andThen_error hfactor)]
  have hassignment : readStatement ending (⟨.name "x", 1⟩ :: ⟨.mark .equals, 1⟩ :: sum) =
      .error fault := by
    rw [readStatement_assignment, readAssignment_eq, andThen_ok take_token, afterEquals,
      andThen_error hsum]
  have hbody : readStatement ending body = .error fault := by
    rw [readStatement_block, readStatements_eq, andThen_error (andThen_error hassignment)]
  have hprocedure : readStatement ending (⟨.keyword .proc, 1⟩ :: ⟨.name "p", 1⟩ :: body) =
      .error fault := by
    rw [readStatement_procedure, procedureFrom, andThen_ok take_name, andThen_error hbody]
  have hparse : Program.parse "main \x7bproc p \x7bx = (1\x7d\x7d" = .error (.source fault) := by
    rw [Program.parse, hstream, program_eq_wholeText, wholeText, readProgram, andThen_ok take_token,
      readStatement_block, readStatements_eq, andThen_error (andThen_error hprocedure)]
    rfl
  exact ⟨hparse, (parse_error_refusedAt _ .closeParen ⟨some (.mark .closeBrace), 1⟩).1 hparse⟩

end

end Primer
