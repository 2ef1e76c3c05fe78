import Primer.Program
import Primer.Proofs.Grammar.Reading

/-! # Reading does not look at lines

A reader copies the lines of its tokens into the tree or into a fault, and it never looks at them.
So reading tokens with other lines gives the same tree or the same fault, with the lines changed in
the same way.
-/
namespace Primer

/-- Changes a result, whether it is a value or a fault. -/
def mapBoth {ε ε' α β : Type} (onError : ε → ε') (onOk : α → β) : Except ε α → Except ε' β
  | .ok a => .ok (onOk a)
  | .error e => .error (onError e)

mutual

/-- The tree with its lines renumbered. -/
def Tree.mapLines (f : Nat → Nat) : Tree → Tree
  | .literal value line => .literal value (f line)
  | .binary left op right line => .binary (left.mapLines f) op (right.mapLines f) (f line)
  | .signed sign operand line => .signed sign (operand.mapLines f) (f line)
  | .variable name line => .variable name (f line)
  | .assignment name value line => .assignment name (value.mapLines f) (f line)
  | .declaration name type typeLine none line => .declaration name type (f typeLine) none (f line)
  | .declaration name type typeLine (some init) line =>
    .declaration name type (f typeLine) (some (init.mapLines f)) (f line)
  | .procedure name body line => .procedure name (body.mapLines f) (f line)
  | .block children line => .block (mapLinesAll f children) (f line)
  | .empty => .empty

def mapLinesAll (f : Nat → Nat) : List Tree → List Tree
  | [] => []
  | tree :: others => tree.mapLines f :: mapLinesAll f others

end

def Located.mapLine (f : Nat → Nat) (u : Located) : Located := ⟨u.token, f u.line⟩

def LexicalFault.mapLine (f : Nat → Nat) : LexicalFault → LexicalFault
  | .strayCharacter c line column => .strayCharacter c (f line) column
  | .integerTooLarge digits line => .integerTooLarge digits (f line)

def SourceFault.mapLine (f : Nat → Nat) : SourceFault → SourceFault
  | .lexical g => .lexical (g.mapLine f)
  | .unexpected expected found line => .unexpected expected found (f line)

def Ending.mapLine (f : Nat → Nat) : Ending → Ending
  | .finish line => .finish (f line)
  | .fault g => .fault (g.mapLine f)

def TokenStream.mapLines (f : Nat → Nat) (s : TokenStream) : TokenStream :=
  ⟨s.tokens.map (·.mapLine f), s.ending.mapLine f⟩

theorem Tree.mapLines_declaration (f : Nat → Nat) (name type : String) (typeLine line : Nat)
    (init : Option Tree) : (Tree.declaration name type typeLine init line).mapLines f =
      .declaration name type (f typeLine) (init.map (·.mapLines f)) (f line) := by
  cases init <;> rfl

namespace Grammar
open Reader

variable {α β γ : Type} {f : Nat → Nat}

def renumber (f : Nat → Nat) (ts : Tokens) : Tokens := ts.map (·.mapLine f)

theorem unexpected_renumber (ending : Ending) (ts : Tokens) (e : Expectation) :
    unexpected (ending.mapLine f) (renumber f ts) e = (unexpected ending ts e).mapLine f := by
  cases ts with
  | cons u rest => rfl
  | nil => cases ending <;> rfl

theorem forall_head?_renumber {P : Token → Prop} {ts : Tokens} (h : ∀ u ∈ ts.head?, P u.token) :
    ∀ u ∈ (renumber f ts).head?, P u.token := by
  cases ts with
  | nil => simp [renumber]
  | cons u rest =>
    rintro _ ⟨⟩
    exact h u rfl

/-- From the renumbered tokens, the second reader gets what the first one gets from the tokens, but
renumbered by `g`. -/
def Renumbers (f : Nat → Nat) (g : α → α) (read read' : Reader α) (ts : Tokens) : Prop :=
  ∀ ending, read' (ending.mapLine f) (renumber f ts) =
    mapBoth (·.mapLine f) (fun r => (g r.1, renumber f r.2)) (read ending ts)

namespace Renumbers
variable {g : α → α} {k : β → β} {first first' : Reader α} {second second' : α → Reader β}
  {ts : Tokens}

theorem give (a : α) : Renumbers f g (give a) (give (g a)) ts :=
  fun _ => rfl

theorem stop {P : Token → Prop} {a : α} (hts : ∀ u ∈ ts.head?, P u.token)
    (hread : ∀ ending us, (∀ u ∈ us.head?, P u.token) → first ending us = .ok (a, us))
    (hread' : ∀ ending us, (∀ u ∈ us.head?, P u.token) → first' ending us = .ok (g a, us)) :
    Renumbers f g first first' ts := by
  intro ending
  rw [hread ending ts hts, hread' _ _ (forall_head?_renumber hts)]
  rfl

theorem refuse {P : Token → Prop} {e : Expectation} (hts : ∀ u ∈ ts.head?, P u.token)
    (hread : ∀ ending us, (∀ u ∈ us.head?, P u.token) →
      first ending us = .error (unexpected ending us e))
    (hread' : ∀ ending us, (∀ u ∈ us.head?, P u.token) →
      first' ending us = .error (unexpected ending us e)) :
    Renumbers f g first first' ts := by
  intro ending
  rw [hread ending ts hts, hread' _ _ (forall_head?_renumber hts), unexpected_renumber]
  rfl

theorem cons {u : Located} {next next' : Reader α} (h : Renumbers f g next next' ts)
    (hread : ∀ ending rest, first ending (u :: rest) = next ending rest)
    (hread' : ∀ ending rest, first' ending (u.mapLine f :: rest) = next' ending rest) :
    Renumbers f g first first' (u :: ts) := by
  intro ending
  rw [hread, ← h ending]
  exact hread' _ _

theorem andThen (h : Renumbers f g first first' ts)
    (hnext : ∀ ending a rest, first ending ts = .ok (a, rest) →
      Renumbers f k (second a) (second' (g a)) rest) :
    Renumbers f k (first.andThen second) (first'.andThen second') ts := by
  intro ending
  have hfirst := h ending
  cases hread : first ending ts with
  | error e =>
    rw [hread] at hfirst
    rw [andThen_error hfirst, andThen_error hread]
    rfl
  | ok r =>
    obtain ⟨a, rest⟩ := r
    rw [hread] at hfirst
    rw [andThen_ok hfirst, andThen_ok hread]
    exact hnext ending a rest hread ending

theorem map {wrap wrap' : α → β} (h : Renumbers f g first first' ts)
    (hwrap : ∀ a, wrap' (g a) = k (wrap a)) :
    Renumbers f k (first.andThen fun a => Reader.give (wrap a))
      (first'.andThen fun a => Reader.give (wrap' a)) ts := by
  refine h.andThen fun ending a rest _ => ?_
  rw [hwrap]
  exact give (wrap a)

theorem take {kind : Located → Option α} {e : Expectation}
    (hkind : ∀ u : Located, kind (u.mapLine f) = (kind u).map g) :
    Renumbers f g (take kind e) (take kind e) ts := by
  intro ending
  cases ts with
  | nil => exact congrArg Except.error (unexpected_renumber ending [] e)
  | cons u rest =>
    have hu := hkind u
    simp only [Reader.take, renumber, List.map_cons]
    cases hk : kind u with
    | none =>
      rw [hk] at hu
      rw [hu]
      rfl
    | some a =>
      rw [hk] at hu
      rw [hu]
      rfl

theorem token (t : Token) (e : Expectation) :
    Renumbers f id (Reader.take (isToken t) e) (Reader.take (isToken t) e) ts := by
  refine take fun u => ?_
  rw [Option.map_id]
  rfl

theorem name (e : Expectation) :
    Renumbers f (fun x => (x.1, f x.2)) (Reader.take name? e) (Reader.take name? e) ts := by
  refine take ?_
  rintro ⟨t, line⟩
  cases t <;> rfl

theorem typeName (e : Expectation) :
    Renumbers f (fun x => (x.1, f x.2)) (Reader.take type? e) (Reader.take type? e) ts := by
  refine take ?_
  rintro ⟨t, line⟩
  cases t <;> rfl

end Renumbers

/-- A reader of trees that copies lines and does not look at them. -/
def CopiesLines (f : Nat → Nat) (read : Reader Tree) (ts : Tokens) : Prop :=
  Renumbers f (Tree.mapLines f) read read ts

section Expressions
variable {ts : Tokens} {level : Level}

theorem renumbers_operationTail {left : Tree}
    (hoperand : ∀ us, us.length < ts.length → CopiesLines f (readOperand level) us) :
    Renumbers f (Tree.mapLines f) (readOperationTail level left)
      (readOperationTail level (left.mapLines f)) ts := by
  induction hn : ts.length using Nat.strongRecOn generalizing left ts with
  | ind n ih =>
  subst hn
  have hstop : (∀ u ∈ ts.head?, level.operator? u.token = none) →
      Renumbers f (Tree.mapLines f) (readOperationTail level left)
        (readOperationTail level (left.mapLines f)) ts := fun hnone =>
    .stop (P := (level.operator? · = none)) hnone (fun _ _ => readOperationTail_stop)
      fun _ _ => readOperationTail_stop
  rcases ts with _ | ⟨⟨t, line⟩, rest⟩
  · exact hstop (by simp)
  · cases hop : level.operator? t with
    | none => exact hstop (by simpa using hop)
    | some op =>
      have hrest : rest.length < (⟨t, line⟩ :: rest : Tokens).length := Nat.lt_succ_self _
      refine .cons ((hoperand rest hrest).andThen ?_) (fun _ _ => readOperationTail_go hop)
        fun _ _ => readOperationTail_go hop
      intro ending right last hread
      have hlast : last.length < rest.length := plain_property hread
      have hlt : last.length < (⟨t, line⟩ :: rest : Tokens).length := Nat.lt_trans hlast hrest
      exact @ih last.length hlt last (.binary left op right line)
        (fun us hus => hoperand us (Nat.lt_trans hus hlt)) rfl

theorem copiesLines_operation
    (hoperand : ∀ us, us.length ≤ ts.length → CopiesLines f (readOperand level) us) :
    CopiesLines f (readOperation level) ts := by
  unfold CopiesLines
  rw [readOperation_eq]
  refine (hoperand ts (Nat.le_refl _)).andThen fun ending left rest hread => ?_
  have hrest : rest.length < ts.length := plain_property hread
  exact renumbers_operationTail fun us hus => hoperand us (by omega)

theorem renumbers_closing (tree : Tree) :
    Renumbers f (Tree.mapLines f) (closing tree) (closing (tree.mapLines f)) ts :=
  (Renumbers.token _ _).map fun _ => rfl

theorem copiesLines_factor
    (hfactor : ∀ us, us.length < ts.length → CopiesLines f readFactor us)
    (hexpression : ∀ us, us.length < ts.length → CopiesLines f (readOperation .sum) us) :
    CopiesLines f readFactor ts := by
  have hrefuse : (∀ u ∈ ts.head?, Expectation.expression.admits u.token = false) →
      CopiesLines f readFactor ts := fun hnone =>
    .refuse (P := (Expectation.expression.admits · = false)) hnone (fun _ _ => readFactor_refuse)
      fun _ _ => readFactor_refuse
  rcases ts with _ | ⟨⟨t, line⟩, rest⟩
  · exact hrefuse (by simp)
  · have hrest : rest.length < (⟨t, line⟩ :: rest : Tokens).length := Nat.lt_succ_self _
    cases t with
    | int n =>
      exact .cons (.give (.literal (.int n) line)) (fun _ _ => readFactor_int)
        fun _ _ => readFactor_int
    | float x =>
      exact .cons (.give (.literal (.float x) line)) (fun _ _ => readFactor_float)
        fun _ _ => readFactor_float
    | name x =>
      exact .cons (.give (.variable x line)) (fun _ _ => readFactor_name)
        fun _ _ => readFactor_name
    | keyword k => exact hrefuse (by simp [Expectation.admits])
    | type t => exact hrefuse (by simp [Expectation.admits])
    | mark m =>
      cases m with
      | plus =>
        refine .cons ((hfactor rest hrest).map ?_) (fun _ _ => readFactor_plus)
          fun _ _ => readFactor_plus
        exact fun _ => rfl
      | minus =>
        refine .cons ((hfactor rest hrest).map ?_) (fun _ _ => readFactor_minus)
          fun _ _ => readFactor_minus
        exact fun _ => rfl
      | openParen =>
        refine .cons ((hexpression rest hrest).andThen ?_) (fun _ _ => readFactor_parens)
          fun _ _ => readFactor_parens
        exact fun _ tree _ _ => renumbers_closing tree
      | _ => exact hrefuse (by simp [Expectation.admits])

theorem copiesLines_levels (f : Nat → Nat) (ts : Tokens) : CopiesLines f readFactor ts ∧
    CopiesLines f (readOperation .product) ts ∧ CopiesLines f (readOperation .sum) ts := by
  induction hn : ts.length using Nat.strongRecOn generalizing ts with
  | ind n ih =>
  have hfactor : ∀ us : Tokens, us.length ≤ n → CopiesLines f readFactor us := fun us hus =>
    copiesLines_factor (fun vs hvs => (ih vs.length (by omega) vs rfl).1)
      (fun vs hvs => (ih vs.length (by omega) vs rfl).2.2)
  have hproduct : ∀ us : Tokens, us.length ≤ n → CopiesLines f (readOperation .product) us := by
    intro us hus
    refine copiesLines_operation fun vs hvs => ?_
    rw [readOperand_product]
    exact hfactor vs (by omega)
  refine ⟨hfactor ts (by omega), hproduct ts (by omega), copiesLines_operation fun us hus => ?_⟩
  rw [readOperand_sum]
  exact hproduct us (by omega)

theorem copiesLines_expression (ts : Tokens) : CopiesLines f (readOperation .sum) ts :=
  (copiesLines_levels f ts).2.2

end Expressions

section Statements
variable {ts : Tokens}

theorem renumbers_afterEquals {g : α → α} {wrap wrap' : Tree → α}
    (hwrap : ∀ value : Tree, wrap' (value.mapLines f) = g (wrap value)) :
    Renumbers f g (afterEquals wrap) (afterEquals wrap') ts :=
  (copiesLines_expression ts).map hwrap

theorem renumbers_assignment (x : String) (line : Nat) :
    Renumbers f (Tree.mapLines f) (readAssignment x line) (readAssignment x (f line)) ts := by
  rw [readAssignment_eq, readAssignment_eq]
  exact (Renumbers.token _ _).andThen fun _ _ _ _ => renumbers_afterEquals fun _ => rfl

theorem renumbers_initializer :
    Renumbers f (Option.map (Tree.mapLines f)) readInitializer readInitializer ts := by
  have hmissing : (∀ u ∈ ts.head?, u.token ≠ .mark .equals) →
      Renumbers f (Option.map (Tree.mapLines f)) readInitializer readInitializer ts := fun hne =>
    .stop (P := (· ≠ .mark .equals)) hne (fun _ _ => readInitializer_missing)
      fun _ _ => readInitializer_missing
  rcases ts with _ | ⟨⟨t, line⟩, rest⟩
  · exact hmissing (by simp)
  · by_cases ht : t = .mark .equals
    · subst ht
      refine .cons (renumbers_afterEquals ?_) (fun _ _ => readInitializer_given)
        fun _ _ => readInitializer_given
      exact fun _ => rfl
    · exact hmissing (by simpa using ht)

theorem copiesLines_declaration : CopiesLines f readDeclaration ts := by
  unfold CopiesLines
  rw [readDeclaration_eq]
  refine (Renumbers.name _).andThen fun _ x _ _ => ?_
  refine (Renumbers.token _ _).andThen fun _ _ _ _ => ?_
  refine (Renumbers.typeName _).andThen fun _ t _ _ => ?_
  exact renumbers_initializer.map fun init => (Tree.mapLines_declaration ..).symm

theorem renumbers_declarations :
    Renumbers f (mapLinesAll f) readDeclarations readDeclarations ts := by
  induction hn : ts.length using Nat.strongRecOn generalizing ts with
  | ind n ih =>
  rw [readDeclarations_eq]
  refine copiesLines_declaration.andThen fun _ first rest hread => ?_
  have hrest : rest.length < ts.length := plain_property hread
  have hlast : (∀ u ∈ rest.head?, u.token ≠ .mark .comma) →
      Renumbers f (mapLinesAll f) (moreDeclarations first)
        (moreDeclarations (first.mapLines f)) rest := fun hne =>
    .stop (P := (· ≠ .mark .comma)) hne (fun _ _ => moreDeclarations_stop)
      fun _ _ => moreDeclarations_stop
  rcases rest with _ | ⟨⟨t, line⟩, rest⟩
  · exact hlast (by simp)
  · by_cases ht : t = .mark .comma
    · subst ht
      have hlt : rest.length < n := by
        rw [List.length_cons] at hrest
        omega
      refine .cons ((ih rest.length hlt rfl).map ?_) (fun _ _ => rfl) fun _ _ => rfl
      exact fun _ => rfl
    · exact hlast (by simpa using ht)

theorem renumbers_statements (hstatement : CopiesLines f readStatement ts)
    (hstatements : ∀ us, us.length < ts.length →
      Renumbers f (mapLinesAll f) readStatements readStatements us) :
    Renumbers f (mapLinesAll f) readStatements readStatements ts := by
  rw [readStatements_eq]
  refine hstatement.andThen fun _ first rest hread => ?_
  have hrest : rest.length ≤ ts.length := plain_property hread
  have hrefuse : (∀ u ∈ rest.head?, Expectation.separator.admits u.token = false) →
      Renumbers f (mapLinesAll f) (moreStatements first) (moreStatements (first.mapLines f)) rest :=
    fun hnone =>
      .refuse (P := (Expectation.separator.admits · = false)) hnone
        (fun _ _ => moreStatements_refuse) fun _ _ => moreStatements_refuse
  rcases rest with _ | ⟨⟨t, line⟩, rest⟩
  · exact hrefuse (by simp)
  · have hlt : rest.length < ts.length := by
      rw [List.length_cons] at hrest
      omega
    cases t with
    | mark m =>
      cases m with
      | semicolon =>
        refine .cons ((hstatements rest hlt).map ?_) (fun _ _ => rfl) fun _ _ => rfl
        exact fun _ => rfl
      | closeBrace => exact .cons (.give [first]) (fun _ _ => rfl) fun _ _ => rfl
      | _ => exact hrefuse (by simp [Expectation.admits])
    | _ => exact hrefuse (by simp [Expectation.admits])

theorem renumbers_procedureFrom {line : Nat}
    (hstatement : ∀ us, us.length ≤ ts.length → CopiesLines f readStatement us) :
    Renumbers f (Tree.mapLines f) (procedureFrom line) (procedureFrom (f line)) ts := by
  refine (Renumbers.name _).andThen fun ending x rest hread => ?_
  have hrest : rest.length ≤ ts.length := Nat.le_of_lt (length_of_take hread)
  exact (hstatement rest hrest).map fun _ => rfl

theorem copiesLines_statement
    (hstatement : ∀ us, us.length < ts.length → CopiesLines f readStatement us)
    (hstatements : ∀ us, us.length < ts.length →
      Renumbers f (mapLinesAll f) readStatements readStatements us) :
    CopiesLines f readStatement ts := by
  have hempty : (∀ u ∈ ts.head?, startsStatement u.token = false) →
      CopiesLines f readStatement ts := fun hnone =>
    .stop (P := (startsStatement · = false)) hnone (fun _ _ => readStatement_empty)
      fun _ _ => readStatement_empty
  rcases ts with _ | ⟨⟨t, line⟩, rest⟩
  · exact hempty (by simp)
  · have hrest : rest.length < (⟨t, line⟩ :: rest : Tokens).length := Nat.lt_succ_self _
    cases t with
    | name x =>
      exact .cons (renumbers_assignment x line) (fun _ _ => readStatement_assignment)
        fun _ _ => readStatement_assignment
    | mark m =>
      cases m with
      | openBrace =>
        refine .cons ((hstatements rest hrest).map ?_) (fun _ _ => readStatement_block)
          fun _ _ => readStatement_block
        exact fun _ => rfl
      | _ => exact hempty (by simp [startsStatement])
    | keyword k =>
      cases k with
      | main => exact hempty (by simp [startsStatement])
      | var =>
        refine .cons (renumbers_declarations.map ?_) (fun _ _ => readStatement_declarations)
          fun _ _ => readStatement_declarations
        exact fun _ => rfl
      | proc =>
        exact .cons (renumbers_procedureFrom fun us hus => hstatement us (Nat.lt_succ_of_le hus))
          (fun _ _ => readStatement_procedure) fun _ _ => readStatement_procedure
    | _ => exact hempty (by simp [startsStatement])

theorem copiesLines_statement_and_statements (f : Nat → Nat) (ts : Tokens) :
    CopiesLines f readStatement ts ∧
      Renumbers f (mapLinesAll f) readStatements readStatements ts := by
  induction hn : ts.length using Nat.strongRecOn generalizing ts with
  | ind n ih =>
  subst hn
  have hstatement : CopiesLines f readStatement ts :=
    copiesLines_statement (fun us hus => (ih us.length hus us rfl).1)
      (fun us hus => (ih us.length hus us rfl).2)
  exact ⟨hstatement, renumbers_statements hstatement fun us hus => (ih us.length hus us rfl).2⟩

theorem copiesLines_program (ts : Tokens) : CopiesLines f readProgram ts :=
  (Renumbers.token _ _).andThen fun _ _ rest _ => (copiesLines_statement_and_statements f rest).1

end Statements

theorem wholeText_mapLines {read : Reader Tree} (hread : ∀ ts, CopiesLines f read ts)
    (s : TokenStream) :
    wholeText read (s.mapLines f) = mapBoth (·.mapLine f) (·.mapLines f) (wholeText read s) := by
  obtain ⟨tokens, ending⟩ := s
  have h := hread tokens ending
  simp only [wholeText, TokenStream.mapLines]
  rw [← renumber, h]
  rcases read ending tokens with e | ⟨tree, rest⟩
  · rfl
  · simp only [mapBoth]
    rcases rest with _ | ⟨u, rest⟩
    · cases ending <;> rfl
    · rfl

end Grammar

theorem TokenStream.program_mapLines (f : Nat → Nat) (s : TokenStream) :
    (s.mapLines f).program = mapBoth (·.mapLine f) (·.mapLines f) s.program := by
  rw [Grammar.program_eq_wholeText, Grammar.program_eq_wholeText]
  exact Grammar.wholeText_mapLines Grammar.copiesLines_program s

theorem TokenStream.expression_mapLines (f : Nat → Nat) (s : TokenStream) :
    (s.mapLines f).expression = mapBoth (·.mapLine f) (·.mapLines f) s.expression := by
  rw [Grammar.expression_eq_wholeText, Grammar.expression_eq_wholeText]
  exact Grammar.wholeText_mapLines Grammar.copiesLines_expression s

end Primer
