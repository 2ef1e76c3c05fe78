import Primer.Grammar.Expression

/-! # Reading statements

    program     = "main" statement
    statement   = block | assignment | declarations | procedure | nothing
    block       = "{" statement (";" statement)* "}"
    assignment  = name "=" expression
    declarations = "var" declaration ("," declaration)*
    declaration = name ":" ("Int" | "Float") ("=" expression)?
    procedure   = "proc" name statement

The first token decides which statement it is. A token that starts none is left where it stands,
and the statement is empty.
-/
namespace Primer.Grammar

/-- Reads the rest of an assignment to `x`, from the equals sign on. -/
def assignment (ending : Ending) (x : String) (line : Nat) (ts : Tokens) :
    Except SourceFault (Tree × Fewer ts) :=
  match ts with
  | ⟨.mark .equals, _⟩ :: rest => do
    let (value, after) ← expression ending rest
    .ok (.assignment x value line, after.cons)
  | ts => .error (unexpected ending ts .equals)

/-- Reads the part of a declaration that gives the first value, which may be missing. -/
def initializer (ending : Ending) (ts : Tokens) :
    Except SourceFault (Option Tree × NoMore ts) :=
  match ts with
  | ⟨.mark .equals, _⟩ :: rest => do
    let (value, after) ← expression ending rest
    .ok (some value, after.cons.noMore)
  | ts => .ok (none, ⟨ts, Nat.le_refl _⟩)

def declaration (ending : Ending) (ts : Tokens) : Except SourceFault (Tree × Fewer ts) :=
  match ts with
  | ⟨.name x, line⟩ :: ⟨.mark .colon, _⟩ :: ⟨.type t, typeLine⟩ :: rest => do
    let (init, after) ← initializer ending rest
    .ok (.declaration x t.name typeLine init line, after.cons.cons.cons)
  | ⟨.name _, _⟩ :: ⟨.mark .colon, _⟩ :: rest => .error (unexpected ending rest .typeName)
  | ⟨.name _, _⟩ :: rest => .error (unexpected ending rest .colon)
  | ts => .error (unexpected ending ts .variableName)

def declarations (ending : Ending) (ts : Tokens) : Except SourceFault (List Tree × Fewer ts) := do
  let (first, ⟨after, h⟩) ← declaration ending ts
  match after, h with
  | ⟨.mark .comma, _⟩ :: rest, h => do
    let (others, ⟨last, h'⟩) ← declarations ending rest
    .ok (first :: others, ⟨last, Nat.lt_trans h' (Nat.lt_of_succ_lt h)⟩)
  | after, h => .ok ([first], ⟨after, h⟩)
termination_by ts.length
decreasing_by exact Nat.lt_of_succ_lt h

mutual

/-- Reads a statement, which may be empty. -/
def statement (ending : Ending) (ts : Tokens) : Except SourceFault (Tree × NoMore ts) :=
  match ts with
  | ⟨.mark .openBrace, line⟩ :: rest => do
    let (children, after) ← statements ending rest
    .ok (.block children line, after.cons.noMore)
  | ⟨.name x, line⟩ :: rest => do
    let (tree, after) ← assignment ending x line rest
    .ok (tree, after.cons.noMore)
  | ⟨.keyword .var, line⟩ :: rest => do
    let (children, after) ← declarations ending rest
    .ok (.block children line, after.cons.noMore)
  | ⟨.keyword .proc, line⟩ :: ⟨.name x, _⟩ :: rest => do
    let (body, after) ← statement ending rest
    .ok (.procedure x body line, after.cons.cons.noMore)
  | ⟨.keyword .proc, _⟩ :: rest => .error (unexpected ending rest .procedureName)
  | ts => .ok (.empty, ⟨ts, Nat.le_refl _⟩)
termination_by 2 * ts.length

/-- Reads the statements of a block up to its closing brace, and the brace. -/
def statements (ending : Ending) (ts : Tokens) : Except SourceFault (List Tree × Fewer ts) := do
  let (first, ⟨after, h⟩) ← statement ending ts
  match after, h with
  | ⟨.mark .semicolon, _⟩ :: rest, h => do
    let (others, ⟨last, h'⟩) ← statements ending rest
    .ok (first :: others, ⟨last, Nat.lt_of_lt_of_le (Nat.lt_succ_of_lt h') h⟩)
  | ⟨.mark .closeBrace, _⟩ :: rest, h => .ok ([first], ⟨rest, Nat.lt_of_succ_le h⟩)
  | after, _ => .error (unexpected ending after .separator)
termination_by 2 * ts.length + 1
decreasing_by
  · omega
  · simp only [List.length_cons] at h
    omega

end

end Primer.Grammar

namespace Primer

def TokenStream.program (s : TokenStream) : Except SourceFault Tree :=
  match s.tokens with
  | ⟨.keyword .main, _⟩ :: rest => do
    let (tree, ⟨after, _⟩) ← Grammar.statement s.ending rest
    Grammar.finish s.ending after tree
  | ts => .error (Grammar.unexpected s.ending ts .main)

end Primer
