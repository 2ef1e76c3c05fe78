import Primer.Grammar.Statement

/-! # Readers without their bounds

A reader of the grammar returns what it has left together with a bound on its length. The bound
makes the reading end and says nothing about the result, so that it is dropped here. Each reader is
then a sequence of smaller readers, and the equations of this module say which.
-/
namespace Primer

/-- The tokens that the expectation names. Nothing stands for the end of the text. -/
def Expectation.admits : Expectation → Token → Bool
  | .main, t => t = .keyword .main
  | .equals, t => t = .mark .equals
  | .colon, t => t = .mark .colon
  | .closeParen, t => t = .mark .closeParen
  | .separator, t => t = .mark .semicolon || t = .mark .closeBrace
  | .typeName, t => (t matches .type _)
  | .variableName, t => (t matches .name _)
  | .procedureName, t => (t matches .name _)
  | .expression, t =>
    (t matches .int _ | .float _ | .name _) || t = .mark .openParen || t = .mark .plus ||
      t = .mark .minus
  | .endOfInput, _ => false

theorem Expectation.exists_admits {e : Expectation} (h : e ≠ .endOfInput) :
    ∃ t, e.admits t = true := by
  cases e with
  | main => exact ⟨.keyword .main, rfl⟩
  | equals => exact ⟨.mark .equals, rfl⟩
  | colon => exact ⟨.mark .colon, rfl⟩
  | closeParen => exact ⟨.mark .closeParen, rfl⟩
  | separator => exact ⟨.mark .semicolon, rfl⟩
  | typeName => exact ⟨.type .int, rfl⟩
  | variableName => exact ⟨.name "", rfl⟩
  | procedureName => exact ⟨.name "", rfl⟩
  | expression => exact ⟨.int 0, rfl⟩
  | endOfInput => exact absurd rfl h

def Expectation.single : List Expectation := [.main, .equals, .colon, .closeParen]

theorem Expectation.eq_of_admits {e : Expectation} {t u : Token} (he : e ∈ Expectation.single)
    (ht : e.admits t = true) (hu : e.admits u = true) : t = u := by
  simp only [Expectation.single, List.mem_cons, List.not_mem_nil, or_false] at he
  rcases he with rfl | rfl | rfl | rfl <;>
    exact (of_decide_eq_true ht).trans (of_decide_eq_true hu).symm

namespace Grammar

/-- Reads something from the front of the tokens and hands back the others. -/
abbrev Reader (α : Type) := Ending → Tokens → Except SourceFault (α × Tokens)

def isToken (t : Token) (u : Located) : Option Unit :=
  if u.token = t then some () else none

def name? (u : Located) : Option (String × Nat) :=
  match u.token with
  | .name x => some (x, u.line)
  | _ => none

def type? (u : Located) : Option (BasicType × Nat) :=
  match u.token with
  | .type t => some (t, u.line)
  | _ => none

def plain {α : Type} {p : Tokens → Prop}
    (r : Except SourceFault (α × { rest : Tokens // p rest })) : Except SourceFault (α × Tokens) :=
  match r with
  | .ok (a, ⟨rest, _⟩) => .ok (a, rest)
  | .error f => .error f

theorem plain_property {α : Type} {p : Tokens → Prop}
    {r : Except SourceFault (α × { rest : Tokens // p rest })} {a : α} {rest : Tokens}
    (h : plain r = .ok (a, rest)) : p rest := by
  rcases r with e | ⟨b, last, hlast⟩
  · cases h
  · cases h
    exact hlast

theorem isToken_eq_none {t : Token} {ts : Tokens} (h : ∀ line rest, ts = ⟨t, line⟩ :: rest → False) :
    ∀ u ∈ ts.head?, isToken t u = none := by
  rcases ts with _ | ⟨⟨u, line⟩, rest⟩
  · simp
  · rintro _ ⟨⟩
    exact if_neg fun hu => h line rest (congrArg (fun t => ⟨t, line⟩ :: rest) hu)

theorem name?_eq_none {ts : Tokens} (h : ∀ x line rest, ts = ⟨.name x, line⟩ :: rest → False) :
    ∀ u ∈ ts.head?, name? u = none := by
  rcases ts with _ | ⟨⟨t, line⟩, rest⟩
  · simp
  · rintro _ ⟨⟩
    cases t with
    | name x => exact (h x line rest rfl).elim
    | _ => rfl

theorem type?_eq_none {ts : Tokens} (h : ∀ t line rest, ts = ⟨.type t, line⟩ :: rest → False) :
    ∀ u ∈ ts.head?, type? u = none := by
  rcases ts with _ | ⟨⟨t, line⟩, rest⟩
  · simp
  · rintro _ ⟨⟩
    cases t with
    | type t => exact (h t line rest rfl).elim
    | _ => rfl

namespace Reader
variable {α β : Type}

def give (a : α) : Reader α := fun _ ts => .ok (a, ts)

def andThen (first : Reader α) (second : α → Reader β) : Reader β := fun ending ts =>
  match first ending ts with
  | .ok (a, rest) => second a ending rest
  | .error f => .error f

/-- Reads the first token if it is of the wanted kind. -/
def take (kind : Located → Option α) (e : Expectation) : Reader α := fun ending ts =>
  match ts with
  | [] => .error (unexpected ending [] e)
  | u :: rest =>
    match kind u with
    | some a => .ok (a, rest)
    | none => .error (unexpected ending (u :: rest) e)

theorem andThen_ok {first : Reader α} {second : α → Reader β} {ending : Ending} {ts rest : Tokens}
    {a : α} (h : first ending ts = .ok (a, rest)) :
    first.andThen second ending ts = second a ending rest := by
  simp only [andThen, h]

theorem andThen_error {first : Reader α} {second : α → Reader β} {ending : Ending} {ts : Tokens}
    {f : SourceFault} (h : first ending ts = .error f) :
    first.andThen second ending ts = .error f := by
  simp only [andThen, h]

theorem exists_of_andThen_eq_ok {first : Reader α} {second : α → Reader β} {ending : Ending}
    {ts last : Tokens} {b : β} (h : first.andThen second ending ts = .ok (b, last)) :
    ∃ a rest, first ending ts = .ok (a, rest) ∧ second a ending rest = .ok (b, last) := by
  cases hfirst : first ending ts with
  | error f =>
    rw [andThen_error hfirst] at h
    cases h
  | ok r =>
    obtain ⟨a, rest⟩ := r
    rw [andThen_ok hfirst] at h
    exact ⟨a, rest, rfl, h⟩

section Take
variable {e : Expectation} {ending : Ending} {rest : Tokens} {line : Nat}

theorem take_token {t : Token} :
    take (isToken t) e ending (⟨t, line⟩ :: rest) = .ok ((), rest) := by
  simp [take, isToken]

theorem take_name {x : String} :
    take name? e ending (⟨.name x, line⟩ :: rest) = .ok ((x, line), rest) := rfl

theorem take_type {t : BasicType} :
    take type? e ending (⟨.type t, line⟩ :: rest) = .ok ((t, line), rest) := rfl

end Take

theorem take_of_none {kind : Located → Option α} {e : Expectation} {ending : Ending} {ts : Tokens}
    (h : ∀ u ∈ ts.head?, kind u = none) :
    take kind e ending ts = .error (unexpected ending ts e) := by
  cases ts with
  | nil => rfl
  | cons u rest =>
    have hu : kind u = none := h u rfl
    simp only [take, hu]

theorem length_of_take {kind : Located → Option α} {e : Expectation} {ending : Ending}
    {ts rest : Tokens} {a : α} (h : take kind e ending ts = .ok (a, rest)) :
    rest.length < ts.length := by
  cases ts with
  | nil => cases h
  | cons u us =>
    simp only [take] at h
    split at h <;> cases h
    exact Nat.lt_succ_self _

end Reader
open Reader

def readFactor : Reader Tree := fun ending ts => plain (factor ending ts)

def readOperand (level : Level) : Reader Tree := fun ending ts => plain (operand ending level ts)

def readOperation (level : Level) : Reader Tree := fun ending ts =>
  plain (operation ending level ts)

def readOperationTail (level : Level) (left : Tree) : Reader Tree := fun ending ts =>
  plain (operationTail ending level left ts)

section Expressions
variable {ending : Ending} {rest ts : Tokens} {line : Nat} {level : Level} {left : Tree} {t : Token}

@[simp] theorem readFactor_int {n : Int64} :
    readFactor ending (⟨.int n, line⟩ :: rest) = .ok (.literal (.int n) line, rest) := by
  rw [readFactor, factor]
  rfl

@[simp] theorem readFactor_float {x : Float} :
    readFactor ending (⟨.float x, line⟩ :: rest) = .ok (.literal (.float x) line, rest) := by
  rw [readFactor, factor]
  rfl

@[simp] theorem readFactor_name {x : String} :
    readFactor ending (⟨.name x, line⟩ :: rest) = .ok (.variable x line, rest) := by
  rw [readFactor, factor]
  rfl

theorem readFactor_plus : readFactor ending (⟨.mark .plus, line⟩ :: rest) =
    readFactor.andThen (fun tree => give (.signed .plus tree line)) ending rest := by
  rw [readFactor, factor]
  simp only [andThen, readFactor]
  rcases factor ending rest with f | ⟨tree, after⟩ <;> rfl

theorem readFactor_minus : readFactor ending (⟨.mark .minus, line⟩ :: rest) =
    readFactor.andThen (fun tree => give (.signed .minus tree line)) ending rest := by
  rw [readFactor, factor]
  simp only [andThen, readFactor]
  rcases factor ending rest with f | ⟨tree, after⟩ <;> rfl

def closing (tree : Tree) : Reader Tree :=
  (take (isToken (.mark .closeParen)) .closeParen).andThen fun _ => give tree

theorem closing_eq {tree : Tree} : closing tree ending ts =
    (closeParen ending ts).map (fun last => (tree, last.val)) := by
  unfold closeParen
  split
  · rfl
  · rename_i hne
    rw [closing, andThen_error (take_of_none (isToken_eq_none hne))]
    rfl

theorem readFactor_parens : readFactor ending (⟨.mark .openParen, line⟩ :: rest) =
    (readOperation .sum).andThen closing ending rest := by
  rw [readFactor, factor]
  simp only [andThen, readOperation]
  rcases operation ending .sum rest with f | ⟨tree, after, h⟩
  · rfl
  · simp only [plain, closing_eq, bind, Except.bind]
    rcases closeParen ending after with f | last <;> rfl

theorem readOperand_product : readOperand .product = readFactor := by
  funext ending ts
  rw [readOperand, operand, readFactor]

theorem readOperand_sum : readOperand .sum = readOperation .product := by
  funext ending ts
  rw [readOperand, operand, readOperation]

theorem readOperation_eq (level : Level) :
    readOperation level = (readOperand level).andThen (readOperationTail level) := by
  funext ending ts
  rw [readOperation, operation]
  simp only [andThen, readOperand, readOperationTail]
  rcases operand ending level ts with f | ⟨left, after, h⟩
  · rfl
  · simp only [plain, bind, Except.bind]
    rcases operationTail ending level left after with f | ⟨tree, last, h'⟩ <;> rfl

theorem readOperationTail_stop (h : ∀ u ∈ ts.head?, level.operator? u.token = none) :
    readOperationTail level left ending ts = .ok (left, ts) := by
  cases ts with
  | nil =>
    rw [readOperationTail, operationTail]
    rfl
  | cons u rest =>
    have hu : level.operator? u.token = none := h u rfl
    rw [readOperationTail, operationTail]
    simp only [hu, plain]

theorem readOperationTail_go {op : BinaryOperator} (h : level.operator? t = some op) :
    readOperationTail level left ending (⟨t, line⟩ :: rest) =
      (readOperand level).andThen (fun right => readOperationTail level (.binary left op right line))
        ending rest := by
  rw [readOperationTail, operationTail]
  simp only [h, andThen, readOperand, readOperationTail]
  rcases operand ending level rest with f | ⟨right, after, h⟩
  · rfl
  · simp only [plain, bind, Except.bind]
    rcases operationTail ending level (.binary left op right line) after with f | ⟨tree, last, h'⟩ <;>
      rfl

theorem readFactor_refuse (h : ∀ u ∈ ts.head?, Expectation.expression.admits u.token = false) :
    readFactor ending ts = .error (unexpected ending ts .expression) := by
  rw [readFactor]
  unfold factor
  rcases ts with _ | ⟨⟨t, line⟩, rest⟩
  · rfl
  · have ht : Expectation.expression.admits t = false := h _ rfl
    cases t with
    | keyword k => rfl
    | type t => rfl
    | mark m =>
      cases m with
      | openParen => cases ht
      | plus => cases ht
      | minus => cases ht
      | _ => rfl
    | _ => cases ht

end Expressions

def readAssignment (x : String) (line : Nat) : Reader Tree := fun ending ts =>
  plain (assignment ending x line ts)

def readInitializer : Reader (Option Tree) := fun ending ts => plain (initializer ending ts)

def readDeclaration : Reader Tree := fun ending ts => plain (declaration ending ts)

def readDeclarations : Reader (List Tree) := fun ending ts => plain (declarations ending ts)

def readStatement : Reader Tree := fun ending ts => plain (statement ending ts)

def readStatements : Reader (List Tree) := fun ending ts => plain (statements ending ts)

section Statements
variable {ending : Ending} {rest ts : Tokens} {line : Nat}

/-- The part of an assignment or declaration that starts with an equals sign. -/
def afterEquals {α : Type} (wrap : Tree → α) : Reader α :=
  (readOperation .sum).andThen fun value => give (wrap value)

theorem readAssignment_eq (x : String) (line : Nat) : readAssignment x line =
    (take (isToken (.mark .equals)) .equals).andThen fun _ => afterEquals (.assignment x · line) := by
  funext ending ts
  rw [readAssignment]
  unfold assignment
  split
  · simp only [andThen, take, isToken, if_true, afterEquals, readOperation, expression]
    rename_i rest
    rcases operation ending .sum rest with f | ⟨tree, after, h⟩ <;> rfl
  · rename_i hne
    rw [andThen_error (take_of_none (isToken_eq_none hne))]
    rfl

theorem readInitializer_given : readInitializer ending (⟨.mark .equals, line⟩ :: rest) =
    afterEquals some ending rest := by
  rw [readInitializer, initializer]
  simp only [andThen, afterEquals, readOperation, expression]
  rcases operation ending .sum rest with f | ⟨tree, after, h⟩ <;> rfl

theorem readInitializer_missing (h : ∀ u ∈ ts.head?, u.token ≠ .mark .equals) :
    readInitializer ending ts = .ok (none, ts) := by
  rw [readInitializer]
  unfold initializer
  split
  · exact absurd rfl (h _ rfl)
  · rfl

theorem readDeclaration_eq : readDeclaration =
    (take name? .variableName).andThen fun x =>
      (take (isToken (.mark .colon)) .colon).andThen fun _ =>
        (take type? .typeName).andThen fun t =>
          readInitializer.andThen fun init =>
            give (.declaration x.1 t.1.name t.2 init x.2) := by
  funext ending ts
  rw [readDeclaration]
  unfold declaration
  split
  · rename_i x line _ t typeLine rest
    rw [andThen_ok take_name, andThen_ok take_token, andThen_ok take_type]
    simp only [andThen, readInitializer]
    rcases initializer ending rest with f | ⟨init, after, h⟩ <;> rfl
  · rename_i hne
    rw [andThen_ok take_name, andThen_ok take_token, andThen_error (take_of_none (type?_eq_none hne))]
    rfl
  · rename_i hne
    rw [andThen_ok take_name, andThen_error (take_of_none (isToken_eq_none hne))]
    rfl
  · rename_i hne
    rw [andThen_error (take_of_none (name?_eq_none hne))]
    rfl

/-- Goes on with another declaration as long as a comma follows. -/
def moreDeclarations (first : Tree) : Reader (List Tree) := fun ending ts =>
  match ts with
  | ⟨.mark .comma, _⟩ :: rest =>
    readDeclarations.andThen (fun others => give (first :: others)) ending rest
  | ts => .ok ([first], ts)

theorem moreDeclarations_stop {first : Tree} (h : ∀ u ∈ ts.head?, u.token ≠ .mark .comma) :
    moreDeclarations first ending ts = .ok ([first], ts) := by
  unfold moreDeclarations
  split
  · exact absurd rfl (h _ rfl)
  · rfl

theorem readDeclarations_eq : readDeclarations = readDeclaration.andThen moreDeclarations := by
  funext ending ts
  rw [readDeclarations, declarations]
  simp only [andThen, readDeclaration]
  rcases declaration ending ts with f | ⟨first, after, h⟩
  · rfl
  · rcases after with _ | ⟨⟨t, l⟩, rest⟩
    · rfl
    · cases t with
      | mark m =>
        cases m with
        | comma =>
          change plain (declarations ending rest >>= fun r => .ok (first :: r.1, ⟨r.2.val, _⟩)) =
            readDeclarations.andThen (fun others => give (first :: others)) ending rest
          simp only [andThen, readDeclarations]
          rcases declarations ending rest with f | ⟨others, last, h'⟩ <;> rfl
        | _ => rfl
      | _ => rfl

/-- Goes on with another statement behind a semicolon and ends at a closing brace. -/
def moreStatements (first : Tree) : Reader (List Tree) := fun ending ts =>
  match ts with
  | ⟨.mark .semicolon, _⟩ :: rest =>
    readStatements.andThen (fun others => give (first :: others)) ending rest
  | ⟨.mark .closeBrace, _⟩ :: rest => .ok ([first], rest)
  | ts => .error (unexpected ending ts .separator)

theorem moreStatements_refuse {first : Tree}
    (h : ∀ u ∈ ts.head?, Expectation.separator.admits u.token = false) :
    moreStatements first ending ts = .error (unexpected ending ts .separator) := by
  unfold moreStatements
  split
  · exact absurd (h _ rfl) (by simp [Expectation.admits])
  · exact absurd (h _ rfl) (by simp [Expectation.admits])
  · rfl

theorem readStatements_eq : readStatements = readStatement.andThen moreStatements := by
  funext ending ts
  rw [readStatements, statements]
  simp only [andThen, readStatement]
  rcases statement ending ts with f | ⟨first, after, h⟩
  · rfl
  · rcases after with _ | ⟨⟨t, l⟩, rest⟩
    · rfl
    · cases t with
      | mark m =>
        cases m with
        | semicolon =>
          change plain (statements ending rest >>= fun r => .ok (first :: r.1, ⟨r.2.val, _⟩)) =
            readStatements.andThen (fun others => give (first :: others)) ending rest
          simp only [andThen, readStatements]
          rcases statements ending rest with f | ⟨others, last, h'⟩ <;> rfl
        | _ => rfl
      | _ => rfl

theorem readStatement_block : readStatement ending (⟨.mark .openBrace, line⟩ :: rest) =
    readStatements.andThen (fun children => give (.block children line)) ending rest := by
  rw [readStatement, statement]
  simp only [andThen, readStatements]
  rcases statements ending rest with f | ⟨children, after⟩ <;> rfl

theorem readStatement_assignment {x : String} :
    readStatement ending (⟨.name x, line⟩ :: rest) = readAssignment x line ending rest := by
  rw [readStatement, statement, readAssignment]
  rcases assignment ending x line rest with f | ⟨tree, after⟩ <;> rfl

theorem readStatement_declarations : readStatement ending (⟨.keyword .var, line⟩ :: rest) =
    readDeclarations.andThen (fun children => give (.block children line)) ending rest := by
  rw [readStatement, statement]
  simp only [andThen, readDeclarations]
  rcases declarations ending rest with f | ⟨children, after⟩ <;> rfl

/-- A procedure from its name on. -/
def procedureFrom (line : Nat) : Reader Tree :=
  (take name? .procedureName).andThen fun x =>
    readStatement.andThen fun body => give (.procedure x.1 body line)

theorem readStatement_procedure : readStatement ending (⟨.keyword .proc, line⟩ :: rest) =
    procedureFrom line ending rest := by
  rw [readStatement, procedureFrom]
  rcases rest with _ | ⟨⟨t, l⟩, after⟩
  · simp only [statement]
    rfl
  · cases t with
    | name x =>
      rw [statement, andThen_ok take_name]
      simp only [andThen, readStatement]
      rcases statement ending after with f | ⟨body, last⟩ <;> rfl
    | _ =>
      simp only [statement]
      rfl

/-- The token is the first one of a statement that is not empty. -/
def startsStatement : Token → Bool
  | .mark .openBrace => true
  | .name _ => true
  | .keyword .var => true
  | .keyword .proc => true
  | _ => false

theorem readStatement_empty (h : ∀ u ∈ ts.head?, startsStatement u.token = false) :
    readStatement ending ts = .ok (.empty, ts) := by
  rw [readStatement]
  unfold statement
  rcases ts with _ | ⟨⟨t, line⟩, rest⟩
  · rfl
  · have ht : startsStatement t = false := h _ rfl
    cases t with
    | name x => cases ht
    | mark m =>
      cases m with
      | openBrace => cases ht
      | _ => rfl
    | keyword k =>
      cases k with
      | main => rfl
      | _ => cases ht
    | _ => rfl

end Statements

/-- Reads the whole text: nothing is left over, and the text ends there. -/
def wholeText (read : Reader Tree) (s : TokenStream) : Except SourceFault Tree :=
  match read s.ending s.tokens with
  | .ok (tree, rest) => finish s.ending rest tree
  | .error f => .error f

def readProgram : Reader Tree :=
  (take (isToken (.keyword .main)) .main).andThen fun _ => readStatement

theorem expression_eq_wholeText (s : TokenStream) :
    s.expression = wholeText (readOperation .sum) s := by
  rw [TokenStream.expression, wholeText, readOperation, expression]
  rcases operation s.ending .sum s.tokens with f | ⟨tree, rest, h⟩ <;> rfl

theorem program_eq_wholeText (s : TokenStream) : s.program = wholeText readProgram s := by
  obtain ⟨tokens, ending⟩ := s
  unfold TokenStream.program
  split
  · rename_i rest heq
    subst heq
    rw [wholeText, readProgram, andThen_ok take_token, readStatement]
    rcases statement ending rest with f | ⟨tree, after, h⟩ <;> rfl
  · rename_i hne
    rw [wholeText, readProgram, andThen_error (take_of_none (isToken_eq_none hne))]

end Grammar

end Primer
