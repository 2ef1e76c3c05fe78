import Primer.Proofs.Grammar.Reading

/-! # Reading one token ahead

A parser that decides by the next token has this token read before it looks at it: to use a token
means to read the one behind it. So if there is a fault in that place, it is met at once, and nothing
is read with the last token in front of a fault. The readers of the grammar meet the fault a little
later, when they ask for the token. For a whole text this is the same.
-/
namespace Primer.Grammar
namespace Reader
variable {α β : Type}

/-- The next token can be read, or the text ends there. -/
def Lexed (ending : Ending) (ts : Tokens) : Prop := ∀ f, ending = .fault f → ts ≠ []

/-- Reads on behind a token that is used. A fault there comes first. -/
def advance (read : Reader α) : Reader α := fun ending ts =>
  match ts, ending with
  | [], .fault f => .error (.lexical f)
  | ts, ending => read ending ts

/-- The reader on tokens that are read one ahead. -/
def ahead (read : Reader α) : Reader α := read.andThen fun a => (give a).advance

/-- Uses the first token if it is of the wanted kind. -/
def eat (kind : Located → Option α) (e : Expectation) : Reader α := fun ending ts =>
  match ts with
  | [] => .error (unexpected ending [] e)
  | u :: rest =>
    match kind u with
    | some a => (give a).advance ending rest
    | none => .error (unexpected ending (u :: rest) e)

/-- In front of a fault nothing can be read. -/
def MeetsFault (read : Reader α) : Prop := ∀ f, read.ahead (.fault f) [] = .error (.lexical f)

variable {ending : Ending} {ts : Tokens}

theorem lexed_or_fault (ending : Ending) (ts : Tokens) :
    Lexed ending ts ∨ ∃ f, ending = .fault f ∧ ts = [] := by
  cases ending with
  | finish line => exact .inl fun f h => by cases h
  | fault f =>
    cases ts with
    | nil => exact .inr ⟨f, rfl, rfl⟩
    | cons u ts => exact .inl fun _ _ => List.cons_ne_nil u ts

theorem lexed_cons {u : Located} : Lexed ending (u :: ts) := fun _ _ => List.cons_ne_nil u ts

theorem Lexed.advance_eq (h : Lexed ending ts) (read : Reader α) :
    read.advance ending ts = read ending ts := by
  unfold advance
  split
  · exact absurd rfl (h _ rfl)
  · rfl

theorem ahead_of_error {read : Reader α} {e : SourceFault} (h : read ending ts = .error e) :
    read.ahead ending ts = .error e :=
  andThen_error h

theorem ahead_of_ok {read : Reader α} {a : α} {rest : Tokens} (h : read ending ts = .ok (a, rest))
    (hlexed : Lexed ending rest) : read.ahead ending ts = .ok (a, rest) := by
  rw [ahead, andThen_ok h, hlexed.advance_eq]
  rfl

theorem ahead_of_fault {read : Reader α} {a : α} {f : LexicalFault}
    (h : read (.fault f) ts = .ok (a, [])) : read.ahead (.fault f) ts = .error (.lexical f) := by
  rw [ahead, andThen_ok h]
  rfl

theorem ahead_eq_ok_iff {read : Reader α} {a : α} {rest : Tokens} :
    read.ahead ending ts = .ok (a, rest) ↔ read ending ts = .ok (a, rest) ∧ Lexed ending rest := by
  constructor
  · intro h
    obtain ⟨b, last, hread, hgive⟩ := exists_of_andThen_eq_ok h
    rcases lexed_or_fault ending last with hlexed | ⟨f, rfl, rfl⟩
    · rw [hlexed.advance_eq] at hgive
      cases hgive
      exact ⟨hread, hlexed⟩
    · cases hgive
  · rintro ⟨hread, hlexed⟩
    exact ahead_of_ok hread hlexed

theorem ahead_congr {read read' : Reader α} {us : Tokens} (h : read ending ts = read' ending us) :
    read.ahead ending ts = read'.ahead ending us := by
  simp only [ahead, andThen, h]

theorem Lexed.ahead_give (h : Lexed ending ts) (a : α) :
    (give a).ahead ending ts = give a ending ts :=
  ahead_of_ok rfl h

theorem eat_eq (kind : Located → Option α) (e : Expectation) (ending : Ending) (ts : Tokens) :
    eat kind e ending ts = (take kind e).ahead ending ts := by
  cases ts with
  | nil => exact (ahead_of_error rfl).symm
  | cons u rest =>
    cases hkind : kind u with
    | none =>
      have hrefuse : ∀ v ∈ (u :: rest).head?, kind v = none := by
        rintro _ ⟨⟩
        exact hkind
      rw [ahead_of_error (take_of_none hrefuse)]
      simp only [eat, hkind]
    | some a =>
      have htake : take kind e ending (u :: rest) = .ok (a, rest) := by simp only [take, hkind]
      rw [ahead, andThen_ok htake]
      simp only [eat, hkind]

theorem meetsFault_of_error {read : Reader α} {e : Expectation}
    (h : ∀ f, read (.fault f) [] = .error (unexpected (.fault f) [] e)) : read.MeetsFault :=
  fun f => ahead_of_error (h f)

theorem meetsFault_of_ok {read : Reader α} {a : α} (h : ∀ f, read (.fault f) [] = .ok (a, [])) :
    read.MeetsFault :=
  fun f => ahead_of_fault (h f)

theorem MeetsFault.andThen {first : Reader α} {second : α → Reader β} (h : first.MeetsFault)
    (hsecond : ∀ a, (second a).MeetsFault) : (first.andThen second).MeetsFault := by
  intro f
  cases hread : first (.fault f) [] with
  | error e =>
    have herror := (ahead_of_error hread).symm.trans (h f)
    cases herror
    exact ahead_of_error (andThen_error hread)
  | ok r =>
    obtain ⟨a, rest⟩ := r
    rcases lexed_or_fault (.fault f) rest with hlexed | ⟨_, -, rfl⟩
    · have hok := (ahead_of_ok hread hlexed).symm.trans (h f)
      cases hok
    · exact (ahead_congr (andThen_ok hread)).trans (hsecond a f)

theorem meetsFault_take_andThen {kind : Located → Option α} {e : Expectation} {next : α → Reader β} :
    ((take kind e).andThen next).MeetsFault :=
  meetsFault_of_error fun _ => rfl

theorem meetsFault_give (a : α) : (give a).MeetsFault := meetsFault_of_ok fun _ => rfl

theorem MeetsFault.give {first : Reader α} (h : first.MeetsFault) (g : α → β) :
    (first.andThen fun a => Reader.give (g a)).MeetsFault :=
  h.andThen fun a => meetsFault_give (g a)

theorem advance_eq_ahead {read next next' : Reader α} {u : Located}
    (hread : read ending (u :: ts) = next ending ts) (hfault : next.MeetsFault)
    (hnext : Lexed ending ts → next' ending ts = next.ahead ending ts) :
    next'.advance ending ts = read.ahead ending (u :: ts) := by
  rw [ahead_congr hread]
  rcases lexed_or_fault ending ts with hlexed | ⟨f, rfl, rfl⟩
  · rw [hlexed.advance_eq, hnext hlexed]
  · exact (hfault f).symm

theorem andThen_eq_ahead {first first' : Reader α} {second second' : α → Reader β}
    (hfault : ∀ a, (second a).MeetsFault) (hfirst : first' ending ts = first.ahead ending ts)
    (hsecond : ∀ a rest, first ending ts = .ok (a, rest) → Lexed ending rest →
      second' a ending rest = (second a).ahead ending rest) :
    first'.andThen second' ending ts = (first.andThen second).ahead ending ts := by
  cases hread : first ending ts with
  | error e =>
    rw [andThen_error (hfirst.trans (ahead_of_error hread)),
      ahead_of_error (andThen_error hread)]
  | ok r =>
    obtain ⟨a, rest⟩ := r
    rw [ahead_congr (andThen_ok hread)]
    rcases lexed_or_fault ending rest with hlexed | ⟨f, rfl, rfl⟩
    · rw [andThen_ok (hfirst.trans (ahead_of_ok hread hlexed)), hsecond a rest hread hlexed]
    · rw [hfault a f, andThen_error (hfirst.trans (ahead_of_fault hread))]

theorem andThen_give_eq_ahead {first first' : Reader α} {g : α → β}
    (hfirst : first' ending ts = first.ahead ending ts) :
    first'.andThen (fun a => give (g a)) ending ts =
      (first.andThen fun a => give (g a)).ahead ending ts :=
  andThen_eq_ahead (fun a => meetsFault_give (g a)) hfirst fun a _ _ hrest =>
    (hrest.ahead_give (g a)).symm

end Reader
open Reader

section MeetsFault
variable {level : Level}

theorem meetsFault_factor : readFactor.MeetsFault :=
  meetsFault_of_error fun _ => readFactor_refuse (by simp)

theorem meetsFault_operationTail (left : Tree) : (readOperationTail level left).MeetsFault :=
  meetsFault_of_ok fun _ => readOperationTail_stop (by simp)

theorem meetsFault_product : (readOperation .product).MeetsFault := by
  rw [readOperation_eq, readOperand_product]
  exact meetsFault_factor.andThen meetsFault_operationTail

theorem meetsFault_operand : (readOperand level).MeetsFault := by
  cases level with
  | product => exact readOperand_product ▸ meetsFault_factor
  | sum => exact readOperand_sum ▸ meetsFault_product

theorem meetsFault_operation : (readOperation level).MeetsFault := by
  rw [readOperation_eq]
  exact meetsFault_operand.andThen meetsFault_operationTail

theorem meetsFault_initializer : readInitializer.MeetsFault :=
  meetsFault_of_ok fun _ => readInitializer_missing (by simp)

theorem meetsFault_declarations : readDeclarations.MeetsFault := by
  refine meetsFault_of_error (e := .variableName) fun f => ?_
  rw [readDeclarations_eq, readDeclaration_eq]
  rfl

theorem meetsFault_statement : readStatement.MeetsFault :=
  meetsFault_of_ok fun _ => readStatement_empty (by simp)

theorem meetsFault_statements : readStatements.MeetsFault := by
  rw [readStatements_eq]
  exact meetsFault_statement.andThen fun _ => meetsFault_of_error fun _ => rfl

end MeetsFault

/-- The end of the text is asked for in any case, so that a fault comes to light here at the latest. -/
theorem wholeText_ahead (read : Reader Tree) (s : TokenStream) :
    wholeText read.ahead s = wholeText read s := by
  unfold wholeText
  cases hread : read s.ending s.tokens with
  | error e => rw [ahead_of_error hread]
  | ok r =>
    obtain ⟨tree, rest⟩ := r
    rcases lexed_or_fault s.ending rest with hlexed | ⟨f, hending, rfl⟩
    · rw [ahead_of_ok hread hlexed]
    · rw [hending] at hread ⊢
      rw [ahead_of_fault hread]
      rfl

end Primer.Grammar
