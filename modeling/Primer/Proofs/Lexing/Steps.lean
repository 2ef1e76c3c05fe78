import Primer.TokenStream

/-! # Reading step by step

The tokens of a text are what its steps of reading find, one after the other, up to the first step
that finds none.
-/
namespace Primer

namespace Cursor

def after (c : Cursor) : Nat → Cursor
  | 0 => c
  | n + 1 => (c.after n).next.2

theorem after_next (c : Cursor) (n : Nat) : c.next.2.after n = c.after (n + 1) := by
  induction n with
  | zero => rfl
  | succ n ih => exact congrArg (fun d : Cursor => d.next.2) ih

theorem after_add (c : Cursor) (m n : Nat) : c.after (m + n) = (c.after m).after n := by
  induction n with
  | zero => rfl
  | succ n ih => rw [← Nat.add_assoc, after, ih, after]

theorem exists_lexeme_of_next {c : Cursor} {t : Token} {line : Nat} (h : c.next.1 = .token t line) :
    ∃ l line' column, Lexeme.reading line' column l = .token t line := by
  unfold next at h
  split at h
  · cases h
  · exact ⟨_, _, _, h⟩

end Cursor

/-- What a step of reading finds at the end of the tokens. -/
def Ending.reading : Ending → Reading
  | .finish line => .finish line
  | .fault f => .fault f

namespace TokenStream

/-- Induction along the tokens that follow a cursor. -/
theorem cursor_induction {motive : Cursor → Prop}
    (token : ∀ {c after t line}, c.next = (.token t line, after) → motive after → motive c)
    (finish : ∀ {c after line}, c.next = (.finish line, after) → motive c)
    (fault : ∀ {c after f}, c.next = (.fault f, after) → motive c) (c : Cursor) : motive c := by
  induction hn : c.rest.length using Nat.strongRecOn generalizing c with
  | ind n ih =>
  rcases hnext : c.next with ⟨reading, after⟩
  cases reading with
  | token t line =>
    have hlt : after.rest.length < c.rest.length := by
      have h := c.length_next_lt
      rw [hnext] at h
      exact h (by simp)
    exact token hnext (ih after.rest.length (hn ▸ hlt) after rfl)
  | finish line => exact finish hnext
  | fault f => exact fault hnext

/-- What the steps find up to the one that finds no token. -/
def readings (s : TokenStream) : List Reading :=
  s.tokens.map (fun u => .token u.token u.line) ++ [s.ending.reading]

theorem readings_ofCursor (c : Cursor) :
    c.readings ((ofCursor c).tokens.length + 1) = (ofCursor c).readings := by
  induction c using cursor_induction with
  | token hnext ih =>
    rw [ofCursor_of_token hnext, List.length_cons, Cursor.readings, hnext, ih]
    rfl
  | finish hnext =>
    rw [ofCursor_of_finish hnext]
    simp only [List.length_nil, Cursor.readings, hnext]
    rfl
  | fault hnext =>
    rw [ofCursor_of_fault hnext]
    simp only [List.length_nil, Cursor.readings, hnext]
    rfl

/-- The steps of a cursor determine the tokens behind it. -/
theorem ofCursor_eq {c : Cursor} {tokens : List Located} {ending : Ending}
    (h : c.readings (tokens.length + 1) = readings ⟨tokens, ending⟩) :
    ofCursor c = ⟨tokens, ending⟩ := by
  induction tokens generalizing c with
  | nil =>
    obtain ⟨hending, -⟩ := List.cons_eq_cons.mp h
    cases ending with
    | finish line => exact ofCursor_of_finish (Prod.ext hending rfl)
    | fault f => exact ofCursor_of_fault (Prod.ext hending rfl)
  | cons u tokens ih =>
    obtain ⟨htoken, hrest⟩ := List.cons_eq_cons.mp h
    rw [ofCursor_of_token (Prod.ext htoken rfl), ih hrest]

theorem exists_after_of_mem {c : Cursor} {u : Located} (h : u ∈ (ofCursor c).tokens) :
    ∃ n, (c.after n).next.1 = .token u.token u.line := by
  induction c using cursor_induction with
  | @token c after t line hnext ih =>
    rw [ofCursor_of_token hnext] at h
    rcases List.mem_cons.mp h with rfl | h
    · exact ⟨0, by rw [Cursor.after, hnext]⟩
    · obtain ⟨n, hn⟩ := ih h
      have hafter : c.next.2 = after := by rw [hnext]
      refine ⟨n + 1, ?_⟩
      rw [← c.after_next, hafter, hn]
  | finish hnext =>
    rw [ofCursor_of_finish hnext] at h
    cases h
  | fault hnext =>
    rw [ofCursor_of_fault hnext] at h
    cases h

theorem int_of_mem {c : Cursor} {u : Located} {n : Int64} (h : u ∈ (ofCursor c).tokens)
    (hu : u.token = .int n) : ∃ k ≤ Lexeme.largestInteger, n = Int64.ofNat k := by
  obtain ⟨step, hstep⟩ := exists_after_of_mem h
  obtain ⟨l, line, column, hl⟩ := Cursor.exists_lexeme_of_next hstep
  rw [hu] at hl
  cases l with
  | digits run =>
    simp only [Lexeme.reading] at hl
    split at hl
    · rename_i hle
      cases hl
      exact ⟨_, hle, rfl⟩
    · cases hl
  | word chars =>
    simp only [Lexeme.reading, Reading.token.injEq, Token.ofWord] at hl
    grind
  | _ => cases hl

theorem tokens_of_toTokenList {s : TokenStream} {l : TokenList} (h : s.toTokenList = .ok l) :
    l.tokens = s.tokens := by
  unfold toTokenList at h
  split at h <;> cases h
  rfl

theorem toTokenList_ofString {source : String} {tokens : List Located} {line : Nat}
    (h : (Cursor.ofString source).readings (tokens.length + 1) =
      readings ⟨tokens, .finish line⟩) :
    (ofString source).toTokenList = .ok ⟨tokens, line⟩ := by
  rw [ofString, ofCursor_eq h]
  rfl

end TokenStream

end Primer
