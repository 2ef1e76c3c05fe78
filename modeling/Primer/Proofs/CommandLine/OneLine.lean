import Primer.Proofs.Decimal.Numerals
import Primer.Proofs.Lexing.Identifiers

/-! # Texts of one line

Numbers are written without line breaks, and so are the tokens of a text, because no word runs over
the end of a line. Where such texts are printed one below the other, their number is that of the
lines.
-/
namespace Primer

def OneLine (text : String) : Prop := '\n' ∉ text.toList

instance (text : String) : Decidable (OneLine text) :=
  inferInstanceAs (Decidable ('\n' ∉ text.toList))

namespace OneLine

theorem append {s t : String} (hs : OneLine s) (ht : OneLine t) : OneLine (s ++ t) := by
  intro h
  rw [String.toList_append, List.mem_append] at h
  exact h.elim hs ht

theorem ofList {cs : List Char} (h : '\n' ∉ cs) : OneLine (String.ofList cs) := by
  rw [OneLine, String.toList_ofList]
  exact h

theorem nat (n : Nat) : OneLine n.repr := by
  rw [OneLine, Nat.toList_repr]
  exact not_mem_toDigits (by decide)

theorem int (n : Int) : OneLine n.repr := by
  intro h
  rcases isDigit_of_mem_repr h with hdigit | hminus
  · exact absurd hdigit (by decide)
  · exact absurd hminus (by decide)

end OneLine

namespace Decimal
variable (d : Decimal)

theorem newline_not_mem_positional : '\n' ∉ d.positional := by
  have hdigits := d.not_mem_digitChars (by decide : '\n'.isDigit = false)
  unfold positional
  split
  · simp [hdigits]
  · exact not_mem_take_drop (by simp [hdigits]) (by decide) _

theorem newline_not_mem_scientific : '\n' ∉ d.scientific := by
  have hdigits := d.not_mem_digitChars (by decide : '\n'.isDigit = false)
  have hmantissa : '\n' ∉ d.digitChars.take 1 ++
      (if (d.digitChars.drop 1).isEmpty then [] else '.' :: d.digitChars.drop 1) := by
    split
    · rw [List.append_nil]
      exact fun h => hdigits (List.mem_of_mem_take h)
    · exact not_mem_take_drop hdigits (by decide) 1
  intro h
  rcases List.mem_append.mp h with h | h
  · exact hmantissa h
  · rcases List.mem_cons.mp h with h | h
    · exact absurd h (by decide)
    · exact OneLine.int d.leading h

theorem newline_not_mem_layout : '\n' ∉ d.layout := by
  unfold layout
  split
  · exact d.newline_not_mem_positional
  · exact d.newline_not_mem_scientific

end Decimal

theorem oneLine_floatText (x : Float) : OneLine (floatText x) := by
  have hsign : OneLine (if x.toBits.toNat < 0x8000000000000000 then "" else "-") := by
    split <;> decide
  unfold floatText
  simp only
  split
  · decide
  · split
    · exact hsign.append (by decide)
    · split
      · exact hsign.append (by decide)
      · exact hsign.append (.ofList (Decimal.newline_not_mem_layout _))

theorem Value.oneLine_text (value : Value) : OneLine value.text := by
  cases value with
  | int n => exact .int n.toInt
  | float x => exact oneLine_floatText x

theorem Token.oneLine_text {t : Token} (h : ∀ name, t = .name name → OneLine name) :
    OneLine t.text := by
  have hquote : OneLine "'" := by decide
  cases t with
  | int n => exact OneLine.append (by decide) (Value.int n).oneLine_text
  | float x => exact OneLine.append (by decide) (Value.float x).oneLine_text
  | name s => exact (OneLine.append (by decide) (h s rfl)).append hquote
  | keyword k => cases k <;> decide
  | type t => cases t <;> decide
  | mark m => cases m <;> decide

theorem TokenStream.oneLine_of_mem {source : String} {u : Located}
    (h : u ∈ (ofString source).tokens) : OneLine u.token.text := by
  refine Token.oneLine_text fun name hname => ?_
  exact (Lexing.namedIn_of_mem h hname).pattern.newline_not_mem

/-- Texts of one line each, printed one below the other, are the lines of what is printed. -/
theorem splitOn_join {rows : List String} (h : ∀ row ∈ rows, OneLine row) :
    (String.join (rows.map (· ++ "\n"))).toList.splitOn '\n' = rows.map String.toList ++ [[]] := by
  induction rows with
  | nil => rfl
  | cons row rows ih =>
    obtain ⟨hrow, hrows⟩ := List.forall_mem_cons.mp h
    have hjoin : (String.join ((row :: rows).map (· ++ "\n"))).toList =
        row.toList ++ '\n' :: (String.join (rows.map (· ++ "\n"))).toList := by
      simp [String.toList_join]
    rw [hjoin, List.splitOn_append_cons_self_of_not_mem hrow, ih hrows]
    rfl

end Primer
