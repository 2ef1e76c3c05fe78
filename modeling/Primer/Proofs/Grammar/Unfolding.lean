import Mathlib.Logic.Function.Iterate
import Primer.Proofs.Grammar.ReadingAhead

/-! # How deep the readers call each other

Each reader is written out once more, with the readers that it calls behind a token as a parameter,
and each time a token is used, the one behind it is read ahead. What a reader calls in front of its
first token, a product for a sum and a factor for a product, is part of it. Then the parameter is
asked about fewer tokens only, in each nested call and in each round of a loop. So if the readers are
unfolded more often than there are tokens, nothing is left to ask, and it makes no difference what the
innermost calls would have answered.
-/
namespace Primer.Grammar
open Reader

/-- Answers to the calls behind a token. The rounds of a loop are calls of the reader for the rest of
the loop. -/
structure Calls where
  factor : Reader Tree
  operation : Level → Reader Tree
  operationTail : Level → Tree → Reader Tree
  declaration : Reader Tree
  declarations : Reader (List Tree)
  statement : Reader Tree
  statements : Reader (List Tree)

namespace Calls

section Unfold
variable (calls : Calls)

def operand : Level → Reader Tree
  | .product => calls.factor
  | .sum => calls.operation .product

def unfoldFactor : Reader Tree := fun ending ts =>
  match ts with
  | ⟨.int n, line⟩ :: rest => (give (.literal (.int n) line)).advance ending rest
  | ⟨.float x, line⟩ :: rest => (give (.literal (.float x) line)).advance ending rest
  | ⟨.name x, line⟩ :: rest => (give (.variable x line)).advance ending rest
  | ⟨.mark .plus, line⟩ :: rest =>
    (calls.factor.andThen fun tree => give (.signed .plus tree line)).advance ending rest
  | ⟨.mark .minus, line⟩ :: rest =>
    (calls.factor.andThen fun tree => give (.signed .minus tree line)).advance ending rest
  | ⟨.mark .openParen, _⟩ :: rest =>
    ((calls.operation .sum).andThen fun tree =>
      (eat (isToken (.mark .closeParen)) .closeParen).andThen fun _ => give tree).advance ending rest
  | ts => .error (unexpected ending ts .expression)

def unfoldProduct : Reader Tree := calls.unfoldFactor.andThen (calls.operationTail .product)

def unfoldOperation : Level → Reader Tree
  | .product => calls.unfoldProduct
  | .sum => calls.unfoldProduct.andThen (calls.operationTail .sum)

def unfoldOperationTail (level : Level) (left : Tree) : Reader Tree := fun ending ts =>
  match ts with
  | [] => .ok (left, [])
  | ⟨t, line⟩ :: rest =>
    match level.operator? t with
    | none => .ok (left, ⟨t, line⟩ :: rest)
    | some op =>
      ((calls.operand level).andThen fun right =>
        calls.operationTail level (.binary left op right line)).advance ending rest

def afterEquals {α : Type} (wrap : Tree → α) : Reader α :=
  (calls.operation .sum).andThen fun value => give (wrap value)

def unfoldInitializer : Reader (Option Tree) := fun ending ts =>
  match ts with
  | ⟨.mark .equals, _⟩ :: rest => (calls.afterEquals some).advance ending rest
  | ts => .ok (none, ts)

def unfoldDeclaration : Reader Tree :=
  (eat name? .variableName).andThen fun x =>
    (eat (isToken (.mark .colon)) .colon).andThen fun _ =>
      (eat type? .typeName).andThen fun t =>
        calls.unfoldInitializer.andThen fun init => give (.declaration x.1 t.1.name t.2 init x.2)

def unfoldDeclarations : Reader (List Tree) :=
  calls.unfoldDeclaration.andThen fun first ending ts =>
    match ts with
    | ⟨.mark .comma, _⟩ :: rest =>
      (calls.declarations.andThen fun others => give (first :: others)).advance ending rest
    | ts => .ok ([first], ts)

def unfoldStatement : Reader Tree := fun ending ts =>
  match ts with
  | ⟨.mark .openBrace, line⟩ :: rest =>
    (calls.statements.andThen fun children => give (.block children line)).advance ending rest
  | ⟨.name x, line⟩ :: rest =>
    ((eat (isToken (.mark .equals)) .equals).andThen fun _ =>
      calls.afterEquals (.assignment x · line)).advance ending rest
  | ⟨.keyword .var, line⟩ :: rest =>
    (calls.declarations.andThen fun children => give (.block children line)).advance ending rest
  | ⟨.keyword .proc, line⟩ :: rest =>
    ((eat name? .procedureName).andThen fun x =>
      calls.statement.andThen fun body => give (.procedure x.1 body line)).advance ending rest
  | ts => .ok (.empty, ts)

def unfoldStatements : Reader (List Tree) :=
  calls.unfoldStatement.andThen fun first ending ts =>
    match ts with
    | ⟨.mark .semicolon, _⟩ :: rest =>
      (calls.statements.andThen fun others => give (first :: others)).advance ending rest
    | ⟨.mark .closeBrace, _⟩ :: rest => (give [first]).advance ending rest
    | ts => .error (unexpected ending ts .separator)

/-- The readers, each unfolded once. -/
def unfold : Calls where
  factor := calls.unfoldFactor
  operation := calls.unfoldOperation
  operationTail := calls.unfoldOperationTail
  declaration := calls.unfoldDeclaration
  declarations := calls.unfoldDeclarations
  statement := calls.unfoldStatement
  statements := calls.unfoldStatements

end Unfold

/-- On these tokens the answers are those of the readers, wherever the first token is there. -/
structure AnswersAt (calls : Calls) (ts : Tokens) : Prop where
  factor : ∀ {ending}, Lexed ending ts → calls.factor ending ts = readFactor.ahead ending ts
  operation : ∀ {ending} level, Lexed ending ts →
    calls.operation level ending ts = (readOperation level).ahead ending ts
  operationTail : ∀ {ending} level left, Lexed ending ts →
    calls.operationTail level left ending ts = (readOperationTail level left).ahead ending ts
  declaration : ∀ {ending}, Lexed ending ts →
    calls.declaration ending ts = readDeclaration.ahead ending ts
  declarations : ∀ {ending}, Lexed ending ts →
    calls.declarations ending ts = readDeclarations.ahead ending ts
  statement : ∀ {ending}, Lexed ending ts →
    calls.statement ending ts = readStatement.ahead ending ts
  statements : ∀ {ending}, Lexed ending ts →
    calls.statements ending ts = readStatements.ahead ending ts

variable {calls : Calls} {ts : Tokens} {ending : Ending}

/-- The answers on fewer tokens are those of the readers. -/
def AnswersBelow (calls : Calls) (ts : Tokens) : Prop :=
  ∀ us : Tokens, us.length < ts.length → calls.AnswersAt us

theorem AnswersBelow.mono {us : Tokens} (h : calls.AnswersBelow ts) (hle : us.length ≤ ts.length) :
    calls.AnswersBelow us :=
  fun vs hvs => h vs (by omega)

theorem AnswersBelow.at_tail {u : Located} (h : calls.AnswersBelow (u :: ts)) :
    calls.AnswersAt ts :=
  h ts (Nat.lt_succ_self _)

theorem AnswersAt.operand (h : calls.AnswersAt ts) (level : Level) (hlexed : Lexed ending ts) :
    calls.operand level ending ts = (readOperand level).ahead ending ts := by
  cases level with
  | product => rw [readOperand_product, Calls.operand, h.factor hlexed]
  | sum => rw [readOperand_sum, Calls.operand, h.operation .product hlexed]

theorem unfoldFactor_eq (h : calls.AnswersBelow ts) :
    calls.unfoldFactor ending ts = readFactor.ahead ending ts := by
  have hrefuse (hts : ∀ u ∈ ts.head?, Expectation.expression.admits u.token = false) :
      .error (unexpected ending ts .expression) = readFactor.ahead ending ts :=
    (ahead_of_error (readFactor_refuse hts)).symm
  rcases ts with _ | ⟨⟨t, line⟩, rest⟩
  · exact hrefuse (by simp)
  · cases t with
    | int n => exact advance_eq_ahead readFactor_int (meetsFault_give _) fun h => (h.ahead_give _).symm
    | float x =>
      exact advance_eq_ahead readFactor_float (meetsFault_give _) fun h => (h.ahead_give _).symm
    | name x => exact advance_eq_ahead readFactor_name (meetsFault_give _) fun h => (h.ahead_give _).symm
    | keyword k => exact hrefuse (by simp [Expectation.admits])
    | type type => exact hrefuse (by simp [Expectation.admits])
    | mark m =>
      cases m with
      | plus =>
        refine advance_eq_ahead readFactor_plus (meetsFault_factor.give _) fun hrest => ?_
        exact andThen_give_eq_ahead (h.at_tail.factor hrest)
      | minus =>
        refine advance_eq_ahead readFactor_minus (meetsFault_factor.give _) fun hrest => ?_
        exact andThen_give_eq_ahead (h.at_tail.factor hrest)
      | openParen =>
        refine advance_eq_ahead readFactor_parens
          (meetsFault_operation.andThen fun _ => meetsFault_take_andThen) fun hrest => ?_
        refine andThen_eq_ahead (fun _ => meetsFault_take_andThen) (h.at_tail.operation .sum hrest) ?_
        exact fun tree _ _ _ => andThen_give_eq_ahead (eat_eq ..)
      | _ => exact hrefuse (by simp [Expectation.admits])

theorem unfoldOperation_eq (h : calls.AnswersBelow ts) (level : Level) :
    calls.unfoldOperation level ending ts = (readOperation level).ahead ending ts := by
  have hproduct : calls.unfoldProduct ending ts = (readOperation .product).ahead ending ts := by
    rw [readOperation_eq, readOperand_product]
    refine andThen_eq_ahead meetsFault_operationTail (unfoldFactor_eq h) fun left rest hread hrest => ?_
    exact (h rest (plain_property hread)).operationTail .product left hrest
  cases level with
  | product => exact hproduct
  | sum =>
    rw [readOperation_eq, readOperand_sum]
    refine andThen_eq_ahead meetsFault_operationTail hproduct fun left rest hread hrest => ?_
    exact (h rest (plain_property hread)).operationTail .sum left hrest

theorem unfoldOperationTail_eq (h : calls.AnswersBelow ts) (hlexed : Lexed ending ts) (level : Level)
    (left : Tree) : calls.unfoldOperationTail level left ending ts =
      (readOperationTail level left).ahead ending ts := by
  rcases ts with _ | ⟨⟨t, line⟩, rest⟩
  · exact (ahead_of_ok (readOperationTail_stop (by simp)) hlexed).symm
  · rw [unfoldOperationTail]
    cases hop : level.operator? t with
    | none => exact (ahead_of_ok (readOperationTail_stop (by simpa using hop)) hlexed).symm
    | some op =>
      refine advance_eq_ahead (readOperationTail_go hop)
        (meetsFault_operand.andThen fun _ => meetsFault_operationTail _) fun hrest => ?_
      refine andThen_eq_ahead (fun _ => meetsFault_operationTail _) (h.at_tail.operand level hrest) ?_
      intro right last hread hlast
      have hshorter : last.length < rest.length := plain_property hread
      exact (h last (Nat.lt_succ_of_lt hshorter)).operationTail level _ hlast

theorem afterEquals_eq {α : Type} {wrap : Tree → α} (h : calls.AnswersAt ts)
    (hlexed : Lexed ending ts) :
    calls.afterEquals wrap ending ts = (Grammar.afterEquals wrap).ahead ending ts :=
  andThen_give_eq_ahead (h.operation .sum hlexed)

theorem unfoldInitializer_eq (h : calls.AnswersBelow ts) (hlexed : Lexed ending ts) :
    calls.unfoldInitializer ending ts = readInitializer.ahead ending ts := by
  unfold unfoldInitializer
  split
  · exact advance_eq_ahead readInitializer_given (meetsFault_operation.give _)
      (afterEquals_eq h.at_tail)
  · rename_i hne
    refine (ahead_of_ok (readInitializer_missing fun u hu heq => ?_) hlexed).symm
    have hnone := isToken_eq_none hne u hu
    rw [isToken, if_pos heq] at hnone
    cases hnone

theorem unfoldDeclaration_eq (h : calls.AnswersBelow ts) :
    calls.unfoldDeclaration ending ts = readDeclaration.ahead ending ts := by
  rw [readDeclaration_eq]
  refine andThen_eq_ahead (fun _ => meetsFault_take_andThen) (eat_eq ..) fun x rest hx _ => ?_
  have hrest := length_of_take hx
  refine andThen_eq_ahead (fun _ => meetsFault_take_andThen) (eat_eq ..) fun _ rest' hcolon _ => ?_
  have hrest' := length_of_take hcolon
  refine andThen_eq_ahead (fun _ => meetsFault_initializer.give _) (eat_eq ..)
    fun t rest'' htype hlexed => ?_
  have hrest'' := length_of_take htype
  exact andThen_give_eq_ahead (unfoldInitializer_eq (h.mono (by omega)) hlexed)

theorem unfoldDeclarations_eq (h : calls.AnswersBelow ts) :
    calls.unfoldDeclarations ending ts = readDeclarations.ahead ending ts := by
  rw [readDeclarations_eq]
  refine andThen_eq_ahead (fun _ => meetsFault_of_ok fun _ => rfl) (unfoldDeclaration_eq h) ?_
  intro first rest hread hlexed
  have hrest : rest.length < ts.length := plain_property hread
  rcases rest with _ | ⟨⟨t, line⟩, last⟩
  · exact (ahead_of_ok rfl hlexed).symm
  · rw [List.length_cons] at hrest
    cases t with
    | mark m =>
      cases m with
      | comma =>
        refine advance_eq_ahead rfl (meetsFault_declarations.give _) fun hlast => ?_
        exact andThen_give_eq_ahead ((h last (by omega)).declarations hlast)
      | _ => exact (ahead_of_ok rfl hlexed).symm
    | _ => exact (ahead_of_ok rfl hlexed).symm

theorem unfoldStatement_eq (h : calls.AnswersBelow ts) (hlexed : Lexed ending ts) :
    calls.unfoldStatement ending ts = readStatement.ahead ending ts := by
  have hempty (hts : ∀ u ∈ ts.head?, startsStatement u.token = false) :
      .ok (.empty, ts) = readStatement.ahead ending ts :=
    (ahead_of_ok (readStatement_empty hts) hlexed).symm
  rcases ts with _ | ⟨⟨t, line⟩, rest⟩
  · exact hempty (by simp)
  · cases t with
    | name x =>
      have hassignment : readStatement ending (⟨.name x, line⟩ :: rest) =
          readAssignment x line ending rest := readStatement_assignment
      rw [readAssignment_eq] at hassignment
      refine advance_eq_ahead hassignment meetsFault_take_andThen fun _ => ?_
      refine andThen_eq_ahead (fun _ => meetsFault_operation.give _) (eat_eq ..) ?_
      intro _ last htake hlast
      exact afterEquals_eq (h last (Nat.lt_succ_of_lt (length_of_take htake))) hlast
    | mark m =>
      cases m with
      | openBrace =>
        refine advance_eq_ahead readStatement_block (meetsFault_statements.give _) fun hrest => ?_
        exact andThen_give_eq_ahead (h.at_tail.statements hrest)
      | _ => exact hempty (by simp [startsStatement])
    | keyword k =>
      cases k with
      | main => exact hempty (by simp [startsStatement])
      | var =>
        refine advance_eq_ahead readStatement_declarations (meetsFault_declarations.give _)
          fun hrest => ?_
        exact andThen_give_eq_ahead (h.at_tail.declarations hrest)
      | proc =>
        refine advance_eq_ahead readStatement_procedure meetsFault_take_andThen fun _ => ?_
        refine andThen_eq_ahead (fun _ => meetsFault_statement.give _) (eat_eq ..)
          fun x last htake hlast => ?_
        have hshorter := length_of_take htake
        exact andThen_give_eq_ahead ((h last (Nat.lt_succ_of_lt hshorter)).statement hlast)
    | _ => exact hempty (by simp [startsStatement])

theorem unfoldStatements_eq (h : calls.AnswersBelow ts) (hlexed : Lexed ending ts) :
    calls.unfoldStatements ending ts = readStatements.ahead ending ts := by
  rw [readStatements_eq]
  refine andThen_eq_ahead (fun _ => meetsFault_of_error fun _ => rfl) (unfoldStatement_eq h hlexed) ?_
  intro first rest hread _
  have hrest : rest.length ≤ ts.length := plain_property hread
  rcases rest with _ | ⟨⟨t, line⟩, last⟩
  · exact (ahead_of_error rfl).symm
  · rw [List.length_cons] at hrest
    cases t with
    | mark m =>
      cases m with
      | semicolon =>
        refine advance_eq_ahead rfl (meetsFault_statements.give _) fun hlast => ?_
        exact andThen_give_eq_ahead ((h last (by omega)).statements hlast)
      | closeBrace => exact advance_eq_ahead rfl (meetsFault_give _) fun h => (h.ahead_give _).symm
      | _ => exact (ahead_of_error rfl).symm
    | _ => exact (ahead_of_error rfl).symm

/-- A reader asks about fewer tokens only. -/
theorem AnswersBelow.unfold (h : calls.AnswersBelow ts) : calls.unfold.AnswersAt ts where
  factor _ := unfoldFactor_eq h
  operation level _ := unfoldOperation_eq h level
  operationTail level left hlexed := unfoldOperationTail_eq h hlexed level left
  declaration _ := unfoldDeclaration_eq h
  declarations _ := unfoldDeclarations_eq h
  statement hlexed := unfoldStatement_eq h hlexed
  statements hlexed := unfoldStatements_eq h hlexed

/-- Calls that are nested as deep as there are tokens do not call anything. -/
theorem iterate_unfold_answersAt (calls : Calls) {n : Nat} (h : ts.length < n) :
    (unfold^[n] calls).AnswersAt ts := by
  induction n generalizing ts with
  | zero => omega
  | succ n ih =>
    rw [Function.iterate_succ_apply']
    refine AnswersBelow.unfold fun us hus => ih ?_
    omega

def program (calls : Calls) : Reader Tree :=
  (eat (isToken (.keyword .main)) .main).andThen fun _ => calls.statement

theorem wholeText_congr {read read' : Reader Tree} {s : TokenStream}
    (h : read s.ending s.tokens = read' s.ending s.tokens) : wholeText read s = wholeText read' s := by
  rw [wholeText, wholeText, h]

theorem program_eq_unfolded (calls : Calls) {s : TokenStream} {n : Nat} (h : s.tokens.length < n) :
    s.program = wholeText (unfold^[n] calls).program s := by
  rw [program_eq_wholeText, ← wholeText_ahead]
  refine wholeText_congr (andThen_eq_ahead (fun _ => meetsFault_statement) (eat_eq ..) ?_).symm
  intro _ rest htake hrest
  have hshorter := length_of_take htake
  exact (iterate_unfold_answersAt calls (by omega)).statement hrest

theorem expression_eq_unfolded (calls : Calls) {s : TokenStream} {n : Nat}
    (h : s.tokens.length < n) : s.expression = wholeText ((unfold^[n] calls).operation .sum) s := by
  rw [expression_eq_wholeText, ← wholeText_ahead]
  obtain ⟨n, rfl⟩ := Nat.exists_eq_succ_of_ne_zero (Nat.ne_zero_of_lt h)
  refine wholeText_congr ?_
  rw [Function.iterate_succ_apply']
  refine (unfoldOperation_eq (fun us hus => ?_) .sum).symm
  exact iterate_unfold_answersAt calls (by omega)

end Calls

end Primer.Grammar
