import Mathlib.Data.Nat.Digits.Defs
import Primer.Proofs.Evaluation.IntegerRange
import Primer.Proofs.Grammar.EarliestFault
import Primer.Proofs.Grammar.Shape
import Primer.Proofs.Lexing.Spelling

/-! # Integers with signs in front of them

The signs are no part of a literal. Any number of them may stand in front of one, and each applies
to what stands behind it, so that a text of signs and digits has the value that it is read with in
mathematics, as long as the digits alone are in range. The text of an integer is such a text, and
only that of the least integer is refused.
-/
namespace Primer

/-- The number that the digits are the decimal notation of. -/
def decimalValue (digits : List Char) : Nat :=
  Nat.ofDigits 10 (digits.reverse.map fun c => c.toNat - '0'.toNat)

def signedText (signs : List Sign) (digits : List Char) : String :=
  String.ofList (signs.map (fun sign => sign.mark.char) ++ digits)

theorem ofDigitChars_eq_decimalValue (digits : List Char) :
    Nat.ofDigitChars 10 digits 0 = decimalValue digits := by
  induction digits using List.reverseRecOn with
  | nil => rfl
  | append_singleton digits c ih =>
    have hlast : decimalValue (digits ++ [c]) =
        (c.toNat - '0'.toNat) + 10 * decimalValue digits := by
      simp [decimalValue, Nat.ofDigits_cons]
    rw [Nat.ofDigitChars_append, ih, hlast]
    exact Nat.add_comm _ _

theorem decimalValue_toDigits (n : Nat) : decimalValue (Nat.toDigits 10 n) = n := by
  rw [← ofDigitChars_eq_decimalValue, Nat.ofDigitChars_ten_toDigits]

def signTokens (signs : List Sign) (line : Nat) : Grammar.Tokens :=
  signs.map fun sign => ⟨.mark sign.mark, line⟩

theorem ofCursor_signs (signs : List Sign) (rest : List Char) (line column : Nat) :
    TokenStream.ofCursor ⟨signs.map (fun sign => sign.mark.char) ++ rest, line, column⟩ =
      ⟨signTokens signs line ++ (TokenStream.ofCursor ⟨rest, line, column + signs.length⟩).tokens,
        (TokenStream.ofCursor ⟨rest, line, column + signs.length⟩).ending⟩ := by
  induction signs generalizing column with
  | nil => rfl
  | cons sign signs ih =>
    have hends : Lexing.EndsBefore (.mark sign.mark)
        (signs.map (fun sign => sign.mark.char) ++ rest) := fun _ _ => rfl
    have hmark := (Lexing.writes_mark sign.mark).ofCursor_eq hends line column
    have hcolumn : column + (signs.length + 1) = column + 1 + signs.length := by omega
    rw [List.length_cons, hcolumn]
    refine hmark.trans ?_
    rw [show (Lexeme.mark sign.mark).spelling.length = 1 from rfl, ih]
    rfl

theorem ofString_signedText {digits : List Char} (hne : digits ≠ [])
    (hdigits : ∀ c ∈ digits, c.isDigit = true) (signs : List Sign) :
    TokenStream.ofString (signedText signs digits) =
      if decimalValue digits ≤ Lexeme.largestInteger then
        ⟨signTokens signs 1 ++ [⟨.int (Int64.ofNat (decimalValue digits)), 1⟩], .finish 1⟩
      else ⟨signTokens signs 1, .fault (.integerTooLarge (String.ofList digits) 1)⟩ := by
  have hnext := (Lexing.Writable.digits hne hdigits).next_eq
    (show Lexing.EndsBefore (.digits digits) [] by simp [Lexing.EndsBefore]) 1 (1 + signs.length)
  rw [List.append_nil, Lexeme.spelling, Lexeme.reading, ofDigitChars_eq_decimalValue] at hnext
  rw [TokenStream.ofString, Cursor.ofString, signedText, String.toList_ofList, ofCursor_signs]
  split at hnext
  · rename_i hle
    rw [if_pos hle, TokenStream.ofCursor_of_token hnext, TokenStream.ofCursor_of_finish rfl]
  · rename_i hle
    rw [if_neg hle, TokenStream.ofCursor_of_fault hnext, List.append_nil]

/-- The tree under the signs, the first of them outermost. -/
def Tree.underSigns (signs : List Sign) (tree : Tree) : Tree :=
  signs.foldr (fun sign operand => .signed sign operand 1) tree

theorem factor_underSigns {ts : Grammar.Tokens} {tree : Tree} (h : Derivation.Factor ts tree)
    (signs : List Sign) :
    Derivation.Factor (signTokens signs 1 ++ ts) (tree.underSigns signs) := by
  induction signs with
  | nil => exact h
  | cons sign signs ih =>
    cases sign with
    | plus => exact .plus ih
    | minus => exact .minus ih

theorem eval_signed_of_ok {sign : Sign} {operand : Tree} {line : Nat} {env : Environment}
    {x value : Value} (h : operand.eval.run env = .ok (some x) env)
    (happly : sign.apply x line = .ok value) :
    (Tree.signed sign operand line).eval.run env = .ok (some value) env := by
  have hdemand : Evaluator.demand operand (some x) = pure x := rfl
  rw [Tree.eval, EStateM.run_bind, h]
  simp only [hdemand, pure_bind, happly]
  rfl

theorem eval_underSigns {n : Int64} (h : (Value.int n).InRange) (signs : List Sign)
    (env : Environment) :
    ∃ k : Int64, (Value.int k).InRange ∧ k.toInt = (-1) ^ signs.count .minus * n.toInt ∧
      ((Tree.literal (.int n) 1).underSigns signs).eval.run env = .ok (some (.int k)) env := by
  induction signs with
  | nil => exact ⟨n, h, by simp, rfl⟩
  | cons sign signs ih =>
    obtain ⟨k, hrange, hk, heval⟩ := ih
    cases sign with
    | plus =>
      refine ⟨k, hrange, ?_, eval_signed_of_ok heval rfl⟩
      rw [hk, List.count_cons_of_ne (by decide)]
    | minus =>
      refine ⟨-k, hrange.neg, ?_, eval_signed_of_ok heval (if_neg hrange.ne_minValue)⟩
      rw [hrange.toInt_neg, hk, List.count_cons_self, pow_succ]
      simp

theorem Tree.value_of_eval {tree : Tree} {value : Value} {env : Environment}
    (h : tree.eval.run .empty = .ok (some value) env) : tree.value = .ok value := by
  rw [Tree.value, Tree.run_evalValue h]

namespace Expression
variable {digits : List Char}

theorem evaluate_signedText (hne : digits ≠ []) (hdigits : ∀ c ∈ digits, c.isDigit = true)
    (signs : List Sign) (hle : decimalValue digits ≤ Lexeme.largestInteger) :
    ∃ k : Int64, k.toInt = (-1) ^ signs.count .minus * decimalValue digits ∧
      evaluate (signedText signs digits) = .ok (.int k) := by
  have htokens := ofString_signedText hne hdigits signs
  rw [if_pos hle] at htokens
  have hparse := Expression.parse_eq_ok_iff.mpr
    ⟨_, by rw [htokens]; rfl, .one (.one (factor_underSigns .int signs))⟩
  obtain ⟨k, -, hk, heval⟩ := eval_underSigns (.ofNat hle) signs .empty
  refine ⟨k, ?_, (evaluate_of_parse hparse).trans (Tree.value_of_eval heval)⟩
  rw [hk, Int64.toInt_ofNat_of_lt (Nat.lt_succ_of_le hle)]

theorem viable_signTokens (signs : List Sign) :
    Viable Derivation.Expression ((signTokens signs 1).map Located.sighting) :=
  viable_tokens_iff.mpr ⟨[⟨.int 0, 1⟩], _, .one (.one (factor_underSigns .int signs))⟩

theorem evaluate_signedText_tooLarge (hne : digits ≠ [])
    (hdigits : ∀ c ∈ digits, c.isDigit = true) (signs : List Sign)
    (hlt : Lexeme.largestInteger < decimalValue digits) :
    evaluate (signedText signs digits) =
      .error (.source (.lexical (.integerTooLarge (String.ofList digits) 1))) := by
  have htokens := ofString_signedText hne hdigits signs
  rw [if_neg (Nat.not_le_of_lt hlt)] at htokens
  have hsettled := (Grammar.verdict_wholeText Grammar.recognises_expression
    (TokenStream.ofString (signedText signs digits))).settledEarliest
  rw [← Grammar.expression_eq_wholeText, ← Expression.parse] at hsettled
  have hparse := hsettled.lexical (fun k _ => ?_) _ (by rw [htokens]; rfl)
  · rw [evaluate_eq, hparse]
    rfl
  · have hsightings : (TokenStream.ofString (signedText signs digits)).sightings =
        (signTokens signs 1).map Located.sighting := by
      rw [htokens]
      exact List.append_nil _
    rw [hsightings]
    exact (viable_signTokens signs).take _

end Expression

/-- The sign that an integer is written with. -/
def signsOf (n : Int) : List Sign := if 0 ≤ n then [] else [.minus]

theorem sign_mul_natAbs (n : Int) : (-1) ^ (signsOf n).count .minus * (n.natAbs : Int) = n := by
  unfold signsOf
  split
  · simp only [List.count_nil, pow_zero]
    omega
  · simp only [List.count_singleton_self, pow_one]
    omega

theorem Value.text_int (n : Int64) :
    (Value.int n).text = signedText (signsOf n.toInt) (Nat.toDigits 10 n.toInt.natAbs) := by
  rw [Value.text, Int.repr_eq_if, signsOf]
  split
  · have habs : n.toInt.toNat = n.toInt.natAbs := by omega
    rw [Nat.repr_eq_ofList_toDigits, habs]
    rfl
  · have habs : (-n.toInt).toNat = n.toInt.natAbs := by omega
    rw [Nat.repr_eq_ofList_toDigits, habs]
    exact String.ofList_append.symm

namespace Expression

theorem evaluate_text_int {n : Int64} (h : n ≠ Int64.minValue) :
    evaluate (Value.int n).text = .ok (.int n) := by
  have hle : n.toInt.natAbs ≤ Lexeme.largestInteger := by
    have hmin : n.toInt ≠ -9223372036854775808 := fun heq => h (Int64.toInt_inj.mp heq)
    have hlow := n.le_toInt
    have hhigh := n.toInt_lt
    unfold Lexeme.largestInteger
    omega
  rw [← decimalValue_toDigits n.toInt.natAbs] at hle
  obtain ⟨k, hk, heval⟩ := evaluate_signedText Nat.toDigits_ne_nil
    (fun _ => Nat.isDigit_of_mem_toDigits (by decide) (by decide)) (signsOf n.toInt) hle
  rw [decimalValue_toDigits, sign_mul_natAbs, Int64.toInt_inj] at hk
  rw [Value.text_int, heval, hk]

theorem evaluate_text_minValue :
    evaluate (Value.int Int64.minValue).text =
      .error (.source (.lexical (.integerTooLarge "9223372036854775808" 1))) := by
  have hlt : Lexeme.largestInteger < decimalValue (Nat.toDigits 10 9223372036854775808) := by
    rw [decimalValue_toDigits]
    decide
  rw [Value.text_int]
  refine (evaluate_signedText_tooLarge Nat.toDigits_ne_nil
    (fun _ => Nat.isDigit_of_mem_toDigits (by decide) (by decide)) [.minus] hlt).trans ?_
  rw [← Nat.repr_eq_ofList_toDigits]
  rfl

end Expression

/-- Signs in front of digits are read as in mathematics if the digits alone are in range, and the
digits are refused as they are written otherwise. So printing is undone for all integers but the
least one. -/
theorem evaluate_signs_then_digits {digits : List Char} (hne : digits ≠ [])
    (hdigits : ∀ c ∈ digits, c.isDigit = true) (signs : List Sign) (n : Int64) :
    (decimalValue digits ≤ 9223372036854775807 →
      ∃ k : Int64, k.toInt = (-1) ^ signs.count .minus * decimalValue digits ∧
        Expression.evaluate (signedText signs digits) = .ok (.int k)) ∧
    (9223372036854775807 < decimalValue digits →
      Expression.evaluate (signedText signs digits) =
        .error (.source (.lexical (.integerTooLarge (String.ofList digits) 1)))) ∧
    Expression.evaluate (Value.int n).text =
      if n = Int64.minValue then
        .error (.source (.lexical (.integerTooLarge "9223372036854775808" 1)))
      else .ok (.int n) := by
  refine ⟨Expression.evaluate_signedText hne hdigits signs,
    Expression.evaluate_signedText_tooLarge hne hdigits signs, ?_⟩
  split
  · rename_i h
    rw [h]
    exact Expression.evaluate_text_minValue
  · rename_i h
    exact Expression.evaluate_text_int h

/-- The greatest integer under four signs, with a zero in front, and the number after it. -/
theorem evaluate_signs_then_digits_at_the_limit :
    (∃ k : Int64, k.toInt = -9223372036854775807 ∧
      Expression.evaluate "-+--09223372036854775807" = .ok (.int k)) ∧
    Expression.evaluate "--9223372036854775808" =
      .error (.source (.lexical (.integerTooLarge "9223372036854775808" 1))) := by
  have hlimit := @evaluate_signs_then_digits "09223372036854775807".toList (by decide)
    (List.all_eq_true.mp (by decide)) [.minus, .plus, .minus, .minus] 0
  have hbehind := @evaluate_signs_then_digits "9223372036854775808".toList (by decide)
    (List.all_eq_true.mp (by decide)) [.minus, .minus] 0
  exact ⟨hlimit.1 (by decide), hbehind.2.1 (by decide)⟩

end Primer
