import Primer.Cursor

/-! # The tokens of a text

A token stream holds the tokens of a text up to its end, or up to the first fault. A reader of
the stream meets the fault only if it gets that far.
-/
namespace Primer

/-- How a token stream ends: with the text, whose last line is given, or at a fault. -/
inductive Ending where
  | finish (line : Nat)
  | fault (f : LexicalFault)
deriving DecidableEq

structure TokenStream where
  tokens : List Located
  ending : Ending
deriving DecidableEq

/-- All tokens of a text, and the line on which the text ends. -/
structure TokenList where
  tokens : List Located
  lastLine : Nat
deriving DecidableEq

namespace TokenStream

def ofCursor (c : Cursor) : TokenStream :=
  match h : c.next with
  | (.token t line, after) =>
    have : after.rest.length < c.rest.length := by
      have := c.length_next_lt
      simp_all
    let stream := ofCursor after
    ⟨⟨t, line⟩ :: stream.tokens, stream.ending⟩
  | (.finish line, _) => ⟨[], .finish line⟩
  | (.fault f, _) => ⟨[], .fault f⟩
termination_by c.rest.length

theorem ofCursor_of_token {c after : Cursor} {t : Token} {line : Nat}
    (h : c.next = (.token t line, after)) :
    ofCursor c = ⟨⟨t, line⟩ :: (ofCursor after).tokens, (ofCursor after).ending⟩ := by
  rw [ofCursor]
  split <;> rename_i hn <;> rw [h] at hn <;> cases hn
  rfl

theorem ofCursor_of_finish {c after : Cursor} {line : Nat} (h : c.next = (.finish line, after)) :
    ofCursor c = ⟨[], .finish line⟩ := by
  rw [ofCursor]
  split <;> rename_i hn <;> rw [h] at hn <;> cases hn
  rfl

theorem ofCursor_of_fault {c after : Cursor} {f : LexicalFault}
    (h : c.next = (.fault f, after)) : ofCursor c = ⟨[], .fault f⟩ := by
  rw [ofCursor]
  split <;> rename_i hn <;> rw [h] at hn <;> cases hn
  rfl

def ofString (source : String) : TokenStream := ofCursor (Cursor.ofString source)

def toTokenList (s : TokenStream) : Except LexicalFault TokenList :=
  match s.ending with
  | .finish line => .ok ⟨s.tokens, line⟩
  | .fault f => .error f

end TokenStream

/-- One row for each token and one for the end of the text: the line and what stands there. -/
def TokenList.rows (l : TokenList) : List (Nat × String) :=
  l.tokens.map (fun t => (t.line, t.token.text)) ++ [(l.lastLine, foundText none)]

end Primer
