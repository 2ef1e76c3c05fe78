import Primer.Proofs.Lexing.Spelling

/-! # The names of a text

A token that is a name was read from a word of the text. The word is not reserved, unless it is one
of those that end late and are read as names for this reason.
-/
namespace Primer.Lexing
open Text

/-- A word of the text that is read as a name: it is an identifier, or it ends late where it is
read. -/
inductive NamedIn (source name : String) : Prop
  | identifier (h : IsIdentifier name)
  | late {n line : Nat} {blanks : List Char}
      (hread : reading source n = .token (.name name) line)
      (h : LateAt source.toList (position source n) blanks name.toList)

theorem pattern_of_isWord {word : List Char} (h : isWord word = true) : Pattern word := by
  cases word with
  | nil => cases h
  | cons c cs =>
    obtain ⟨hc, hcs⟩ := Bool.and_eq_true_iff.mp h
    exact .word hc (List.all_eq_true.mp hcs)

theorem NamedIn.pattern {source name : String} (h : NamedIn source name) :
    Pattern name.toList := by
  cases h with
  | identifier h => exact pattern_of_isWord h.isWord
  | late _ h => exact h.token.holds

theorem ReadsAs.isIdentifier {line line' : Nat} {word : List Char} {name : String}
    (h : ReadsAs line word (.token (.name name) line')) : IsIdentifier name := by
  generalize hr : Reading.token (.name name) line' = r at h
  cases h with
  | reserved hreserved =>
    cases hr
    exact absurd rfl (ne_name_of_reserved hreserved)
  | name hfirst hothers hname =>
    cases hr
    refine ⟨?_, ?_⟩
    · rw [String.toList_ofList]
      exact Bool.and_eq_true_iff.mpr ⟨hfirst, List.all_eq_true.mpr hothers⟩
    · intro hmem
      obtain ⟨⟨word, t⟩, ht, rfl⟩ := List.mem_map.mp hmem
      exact hname t ht
  | _ => cases hr

theorem Step.isIdentifier {text : List Char} {p p' line : Nat} {name : String}
    (h : Step text p (.token (.name name) line) p') : IsIdentifier name := by
  generalize hr : Reading.token (.name name) line = r at h
  cases h with
  | finish => cases hr
  | stray => cases hr
  | token _ _ hread => exact (hr ▸ hread).isIdentifier

theorem namedIn_of_reading {source name : String} {n line : Nat}
    (h : reading source n = .token (.name name) line) : NamedIn source name := by
  have hlaw := stepLaw_position source n
  rw [h] at hlaw
  by_cases hlate : ∃ blanks word, LateAt source.toList (position source n) blanks word
  · obtain ⟨blanks, word, hlate⟩ := hlate
    obtain ⟨hread, -⟩ := hlaw.late blanks word hlate
    cases hread
    have hword : (String.ofList word).toList = word := String.toList_ofList
    exact .late h (hword.symm ▸ hlate)
  · exact .identifier (hlaw.step_iff.mpr hlate).isIdentifier

theorem namedIn_of_mem {source name : String} {u : Located}
    (h : u ∈ (TokenStream.ofString source).tokens) (hu : u.token = .name name) :
    NamedIn source name := by
  obtain ⟨n, hn⟩ := TokenStream.exists_after_of_mem h
  rw [hu] at hn
  exact namedIn_of_reading hn

end Primer.Lexing
