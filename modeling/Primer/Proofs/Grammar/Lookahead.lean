import Primer.Proofs.Grammar.Decision

/-! # Every reader decides with one token of lookahead

The readers of expressions call each other on the same tokens, down to a factor, and on fewer tokens
inside parentheses and behind operators. So the decision of a factor is proved from those on shorter
lists of tokens, and that of a level from those of its operands.
-/
namespace Primer.Grammar
open Reader Primer.Derivation

theorem operator?_eq_some_iff {level : Level} {t : Token} {op : BinaryOperator} :
    level.operator? t = some op ↔ Joins level t op := by
  constructor
  · intro h
    unfold Level.operator? at h
    split at h <;> cases h <;> constructor
  · rintro ⟨⟩ <;> rfl

theorem opens_factor : Opens Factor [] .expression := by
  refine ⟨by decide, ?_⟩
  rintro ⟨t, line⟩ ht
  have hzero : Factor [⟨.int 0, 1⟩] (.literal (.int 0) 1) := .int
  cases t with
  | int n => exact ⟨[], _, .int⟩
  | float x => exact ⟨[], _, .float⟩
  | name x => exact ⟨[], _, .name⟩
  | keyword k => cases ht
  | type type => cases ht
  | mark m =>
    cases m with
    | openParen => exact ⟨[⟨.int 0, 1⟩, ⟨.mark .closeParen, 1⟩], _, .parens (.one (.one hzero))⟩
    | plus => exact ⟨[⟨.int 0, 1⟩], _, .plus hzero⟩
    | minus => exact ⟨[⟨.int 0, 1⟩], _, .minus hzero⟩
    | _ => cases ht

/-- The tokens go on from the operand on the left. -/
def Continues (level : Level) (Operand : Tokens → Tree → Prop) : Tree → Tokens → Tree → Prop :=
  Completes (Chain level Operand) (Chain level Operand)

theorem Continues.nil {level : Level} {Operand : Tokens → Tree → Prop} {left : Tree} :
    Continues level Operand left [] left := by
  intro us h
  simpa using h

theorem Continues.cons {level : Level} {Operand : Tokens → Tree → Prop} {left right tree : Tree}
    {t : Token} {op : BinaryOperator} {line : Nat} {us vs : Tokens} (hop : Joins level t op)
    (hright : Operand us right) (h : Continues level Operand (.binary left op right line) vs tree) :
    Continues level Operand left (⟨t, line⟩ :: (us ++ vs)) tree := by
  intro ws hleft
  simpa using h _ (.more hleft hop hright)

theorem decision_operationTail {level : Level} {Operand : Tokens → Tree → Prop} {left : Tree}
    {ts : Tokens}
    (hoperand : ∀ us, us.length < ts.length → Decision (readOperand level) Operand us) :
    Decision (readOperationTail level left) (Continues level Operand left) ts := by
  induction hn : ts.length using Nat.strongRecOn generalizing left ts with
  | ind n ih =>
  subst hn
  rcases ts with _ | ⟨⟨t, line⟩, rest⟩
  · exact .stop .nil fun ending others hhead => readOperationTail_stop (by simp [hhead])
  · cases hop : level.operator? t with
    | none =>
      exact .stop .nil fun ending others hhead => readOperationTail_stop (by simp [hhead, hop])
    | some op =>
      have hrest : rest.length < (⟨t, line⟩ :: rest : Tokens).length := Nat.lt_succ_self _
      refine .cons ((hoperand rest hrest).andThen
        (Q := fun right => Continues level Operand (.binary left op right line))
        (R := fun us tree => Continues level Operand left (⟨t, line⟩ :: us) tree) ?_ ?_ ?_)
        (fun ending rest => readOperationTail_go hop) id
      · intro used last right heq _
        have hlast : last.length < (⟨t, line⟩ :: rest : Tokens).length := by
          simp only [heq, List.length_cons, List.length_append]
          omega
        exact ih last.length hlast (fun us hus => hoperand us (Nat.lt_trans hus hlast)) rfl
      · intro us vs right tree hright hrest
        exact .cons (operator?_eq_some_iff.mp hop) hright hrest
      · intro us right _
        exact ⟨[], _, .nil⟩

theorem decision_operation {level : Level} {Operand : Tokens → Tree → Prop} {ts : Tokens}
    (hoperand : ∀ us, us.length ≤ ts.length → Decision (readOperand level) Operand us) :
    Decision (readOperation level) (Chain level Operand) ts := by
  rw [readOperation_eq]
  refine (hoperand ts (Nat.le_refl _)).andThen (Q := Continues level Operand) ?_ ?_ ?_
  · intro used rest left heq _
    have hrest : rest.length ≤ ts.length := by simp [heq]
    exact decision_operationTail fun us hus => hoperand us (by omega)
  · intro us vs left tree hleft hrest
    exact hrest us (.one hleft)
  · intro us left _
    exact ⟨[], left, .nil⟩

theorem decision_closing {tree : Tree} {ts : Tokens} :
    Decision (closing tree) (fun us t => t = tree ∧ ∃ line, us = [⟨.mark .closeParen, line⟩]) ts := by
  exact (Decision.token (by decide) rfl).map fun h => ⟨rfl, h⟩

theorem decision_parens {ts : Tokens} {line : Nat} (h : Decision (readOperation .sum) Expression ts) :
    Decision ((readOperation .sum).andThen closing) (fun us => Factor (⟨.mark .openParen, line⟩ :: us))
      ts := by
  refine h.andThen (fun _ _ _ _ _ => decision_closing) ?_ ?_
  · rintro us vs a b ha ⟨rfl, line', rfl⟩
    exact .parens ha
  · intro us a _
    exact ⟨[⟨.mark .closeParen, 1⟩], a, rfl, 1, rfl⟩

theorem decision_factor {ts : Tokens}
    (hfactor : ∀ us, us.length < ts.length → Decision readFactor Factor us)
    (hexpression : ∀ us, us.length < ts.length → Decision (readOperation .sum) Expression us) :
    Decision readFactor Factor ts := by
  have hrefuse : (∀ u ∈ ts.head?, Expectation.expression.admits u.token = false) →
      Decision readFactor Factor ts := fun hnone =>
    .refuse opens_factor fun ending others hhead => readFactor_refuse (hhead ▸ hnone)
  rcases ts with _ | ⟨⟨t, line⟩, rest⟩
  · exact hrefuse (by simp)
  · have hrest : rest.length < (⟨t, line⟩ :: rest : Tokens).length := Nat.lt_succ_self _
    cases t with
    | int n => exact .accepts [_] rest _ rfl .int fun _ _ _ => readFactor_int
    | float x => exact .accepts [_] rest _ rfl .float fun _ _ _ => readFactor_float
    | name x => exact .accepts [_] rest _ rfl .name fun _ _ _ => readFactor_name
    | keyword k => exact hrefuse (by simp [Expectation.admits])
    | type t => exact hrefuse (by simp [Expectation.admits])
    | mark m =>
      cases m with
      | plus => exact .cons ((hfactor rest hrest).map .plus) (fun _ _ => readFactor_plus) id
      | minus => exact .cons ((hfactor rest hrest).map .minus) (fun _ _ => readFactor_minus) id
      | openParen =>
        exact .cons (decision_parens (hexpression rest hrest)) (fun _ _ => readFactor_parens) id
      | _ => exact hrefuse (by simp [Expectation.admits])

theorem decision_levels (ts : Tokens) : Decision readFactor Factor ts ∧
    Decision (readOperation .product) Product ts ∧ Decision (readOperation .sum) Expression ts := by
  induction hn : ts.length using Nat.strongRecOn generalizing ts with
  | ind n ih =>
  have hfactor : ∀ us : Tokens, us.length ≤ n → Decision readFactor Factor us := fun us hus =>
    decision_factor (fun vs hvs => (ih vs.length (by omega) vs rfl).1)
      (fun vs hvs => (ih vs.length (by omega) vs rfl).2.2)
  have hproduct : ∀ us : Tokens, us.length ≤ n → Decision (readOperation .product) Product us := by
    intro us hus
    refine decision_operation fun vs hvs => ?_
    rw [readOperand_product]
    exact hfactor vs (by omega)
  refine ⟨hfactor ts (by omega), hproduct ts (by omega), decision_operation fun us hus => ?_⟩
  rw [readOperand_sum]
  exact hproduct us (by omega)

theorem decision_expression (ts : Tokens) : Decision (readOperation .sum) Expression ts :=
  (decision_levels ts).2.2

theorem exists_expression : ∃ ts tree, Expression ts tree :=
  ⟨[⟨.int 0, 1⟩], _, .one (.one .int)⟩

theorem decision_afterEquals {α : Type} {wrap : Tree → α} {R : Tokens → α → Prop} {ts : Tokens}
    (hwrap : ∀ {us value}, Expression us value → R us (wrap value)) :
    Decision (afterEquals wrap) R ts :=
  (decision_expression ts).map hwrap

theorem decision_assignment {x : String} {line : Nat} {ts : Tokens} :
    Decision (readAssignment x line) (fun us => Statement (⟨.name x, line⟩ :: us)) ts := by
  rw [readAssignment_eq]
  refine (Decision.token (by decide) rfl).andThen
    (Q := fun _ vs tree => ∀ line', Statement (⟨.name x, line⟩ :: ⟨.mark .equals, line'⟩ :: vs) tree)
    ?_ ?_ ?_
  · intro used rest a _ _
    exact decision_afterEquals fun h _ => .assignment h
  · rintro us vs a tree ⟨line', rfl⟩ h
    exact h line'
  · intro us a _
    obtain ⟨vs, value, h⟩ := exists_expression
    exact ⟨vs, _, fun _ => .assignment h⟩

theorem decision_initializer {ts : Tokens} : Decision readInitializer Initializer ts := by
  have hmissing : (∀ u ∈ ts.head?, u.token ≠ .mark .equals) →
      Decision readInitializer Initializer ts := fun hne =>
    .stop .missing fun ending others hhead => readInitializer_missing (hhead ▸ hne)
  rcases ts with _ | ⟨⟨t, line⟩, rest⟩
  · exact hmissing (by simp)
  · by_cases ht : t = .mark .equals
    · subst ht
      exact .cons (decision_afterEquals .given) (fun _ _ => readInitializer_given) id
    · exact hmissing (by simpa using ht)

theorem decision_declaration {ts : Tokens} : Decision readDeclaration Declaration ts := by
  rw [readDeclaration_eq]
  refine (Decision.name (.inl rfl)).andThen
    (Q := fun x vs tree => Declaration (⟨.name x.1, x.2⟩ :: vs) tree) ?_ ?_ ?_
  · intro used rest x _ _
    refine (Decision.token (by decide) rfl).andThen (Q := fun _ vs tree => ∀ line,
      Declaration (⟨.name x.1, x.2⟩ :: ⟨.mark .colon, line⟩ :: vs) tree) ?_ ?_ ?_
    · intro used rest a _ _
      refine Decision.typeName.andThen (Q := fun t vs tree => ∀ line, Declaration
        (⟨.name x.1, x.2⟩ :: ⟨.mark .colon, line⟩ :: ⟨.type t.1, t.2⟩ :: vs) tree) ?_ ?_ ?_
      · intro used rest t _ _
        exact decision_initializer.map fun h _ => .mk h
      · rintro us vs t tree rfl h
        exact h
      · intro us t _
        exact ⟨[], _, fun _ => .mk .missing⟩
    · rintro us vs a tree ⟨line, rfl⟩ h
      exact h line
    · intro us a _
      exact ⟨[⟨.type .int, 1⟩], _, fun _ => .mk .missing⟩
  · rintro us vs x tree rfl h
    exact h
  · intro us x _
    exact ⟨[⟨.mark .colon, 1⟩, ⟨.type .int, 1⟩], _, .mk .missing⟩

theorem completes_declaration {first : Tree} :
    Completes Declaration (Separated (.mark .comma) Declaration) first [] [first] := by
  intro us h
  simpa using .one h

theorem decision_declarations (ts : Tokens) :
    Decision readDeclarations (Separated (.mark .comma) Declaration) ts := by
  induction hn : ts.length using Nat.strongRecOn generalizing ts with
  | ind n ih =>
  rw [readDeclarations_eq]
  refine decision_declaration.complete ?_ fun first => ⟨[], [first], completes_declaration⟩
  intro used rest first heq
  have hlast : (∀ u ∈ rest.head?, u.token ≠ .mark .comma) →
      Decision (moreDeclarations first)
        (Completes Declaration (Separated (.mark .comma) Declaration) first) rest := fun hne =>
    .stop completes_declaration fun ending others hhead => moreDeclarations_stop (hhead ▸ hne)
  rcases rest with _ | ⟨⟨t, line⟩, rest⟩
  · exact hlast (by simp)
  · by_cases ht : t = .mark .comma
    · subst ht
      have hlt : rest.length < n := by
        rw [← hn, heq]
        simp only [List.length_append, List.length_cons]
        omega
      exact .cons ((ih rest.length hlt rest rfl).map fun h us hus => .more hus h)
        (fun _ _ => rfl) id
    · exact hlast (by simpa using ht)

/-- The statements of a block with the brace that closes it. -/
def Enclosed (ts : Tokens) (trees : List Tree) : Prop :=
  ∃ us line, ts = us ++ [⟨.mark .closeBrace, line⟩] ∧
    Separated (.mark .semicolon) Statement us trees

theorem Enclosed.one {us : Tokens} {tree : Tree} {line : Nat} (h : Statement us tree) :
    Enclosed (us ++ [⟨.mark .closeBrace, line⟩]) [tree] :=
  ⟨us, line, rfl, .one h⟩

theorem Enclosed.more {us vs : Tokens} {tree : Tree} {trees : List Tree} {line : Nat}
    (h : Statement us tree) (hrest : Enclosed vs trees) :
    Enclosed (us ++ ⟨.mark .semicolon, line⟩ :: vs) (tree :: trees) := by
  obtain ⟨ws, line', rfl, hws⟩ := hrest
  exact ⟨us ++ ⟨.mark .semicolon, line⟩ :: ws, line', by simp, .more h hws⟩

theorem opens_separator {first : Tree} :
    Opens (Completes Statement Enclosed first) [] .separator := by
  refine ⟨by decide, ?_⟩
  rintro ⟨t, line⟩ ht
  have hempty : Enclosed ([] ++ [⟨.mark .closeBrace, 1⟩]) [.empty] := .one .empty
  cases t with
  | mark m =>
    cases m with
    | semicolon => exact ⟨[⟨.mark .closeBrace, 1⟩], _, fun us h => .more h hempty⟩
    | closeBrace => exact ⟨[], _, fun us h => .one h⟩
    | _ => cases ht
  | _ => cases ht

theorem decision_statements {ts : Tokens}
    (hstatement : Decision readStatement Statement ts)
    (hstatements : ∀ us, us.length < ts.length → Decision readStatements Enclosed us) :
    Decision readStatements Enclosed ts := by
  rw [readStatements_eq]
  refine hstatement.complete ?_ fun first => ⟨[⟨.mark .closeBrace, 1⟩], [first], fun us h => .one h⟩
  intro used rest first heq
  have hrefuse : (∀ u ∈ rest.head?, Expectation.separator.admits u.token = false) →
      Decision (moreStatements first) (Completes Statement Enclosed first) rest := fun hnone =>
    .refuse opens_separator fun ending others hhead => moreStatements_refuse (hhead ▸ hnone)
  rcases rest with _ | ⟨⟨t, line⟩, rest⟩
  · exact hrefuse (by simp)
  · have hlt : rest.length < ts.length := by
      rw [heq]
      simp only [List.length_append, List.length_cons]
      omega
    cases t with
    | mark m =>
      cases m with
      | semicolon =>
        exact .cons ((hstatements rest hlt).map fun h us hus => .more hus h) (fun _ _ => rfl) id
      | closeBrace =>
        exact .accepts [_] rest [first] rfl (fun us h => .one h) fun _ _ _ => rfl
      | _ => exact hrefuse (by simp [Expectation.admits])
    | _ => exact hrefuse (by simp [Expectation.admits])

theorem decision_procedureFrom {ts : Tokens} {line : Nat}
    (hstatement : ∀ us, us.length ≤ ts.length → Decision readStatement Statement us) :
    Decision (procedureFrom line) (fun us => Statement (⟨.keyword .proc, line⟩ :: us)) ts := by
  refine (Decision.name (.inr rfl)).andThen (Q := fun x vs =>
    Statement (⟨.keyword .proc, line⟩ :: ⟨.name x.1, x.2⟩ :: vs)) ?_ ?_ ?_
  · intro used rest x heq _
    exact (hstatement rest (by simp [heq])).map .procedure
  · rintro us vs x tree rfl h
    exact h
  · intro us x _
    exact ⟨[], _, .procedure .empty⟩

theorem decision_statement {ts : Tokens}
    (hstatement : ∀ us, us.length < ts.length → Decision readStatement Statement us)
    (hstatements : ∀ us, us.length < ts.length → Decision readStatements Enclosed us) :
    Decision readStatement Statement ts := by
  have hempty : (∀ u ∈ ts.head?, startsStatement u.token = false) →
      Decision readStatement Statement ts := fun hnone =>
    .stop .empty fun ending others hhead => readStatement_empty (hhead ▸ hnone)
  rcases ts with _ | ⟨⟨t, line⟩, rest⟩
  · exact hempty (by simp)
  · have hrest : rest.length < (⟨t, line⟩ :: rest : Tokens).length := Nat.lt_succ_self _
    cases t with
    | name x => exact .cons decision_assignment (fun _ _ => readStatement_assignment) id
    | mark m =>
      cases m with
      | openBrace =>
        refine .cons ((hstatements rest hrest).map ?_) (fun _ _ => readStatement_block) id
        rintro us trees ⟨vs, line', rfl, h⟩
        exact .block h
      | _ => exact hempty (by simp [startsStatement])
    | keyword k =>
      cases k with
      | main => exact hempty (by simp [startsStatement])
      | var =>
        exact .cons ((decision_declarations rest).map .declarations)
          (fun _ _ => readStatement_declarations) id
      | proc =>
        exact .cons (decision_procedureFrom fun us hus => hstatement us (Nat.lt_succ_of_le hus))
          (fun _ _ => readStatement_procedure) id
    | _ => exact hempty (by simp [startsStatement])

theorem decision_statement_and_statements (ts : Tokens) :
    Decision readStatement Statement ts ∧ Decision readStatements Enclosed ts := by
  induction hn : ts.length using Nat.strongRecOn generalizing ts with
  | ind n ih =>
  subst hn
  have hstatement : Decision readStatement Statement ts :=
    decision_statement (fun us hus => (ih us.length hus us rfl).1)
      (fun us hus => (ih us.length hus us rfl).2)
  exact ⟨hstatement, decision_statements hstatement fun us hus => (ih us.length hus us rfl).2⟩

theorem decision_program (ts : Tokens) : Decision readProgram Program ts := by
  refine (Decision.token (by decide) rfl).andThen
    (Q := fun _ vs tree => ∀ line, Program (⟨.keyword .main, line⟩ :: vs) tree) ?_ ?_ ?_
  · intro used rest a _ _
    exact (decision_statement_and_statements rest).1.mono fun h _ => .mk h
  · rintro us vs a tree ⟨line, rfl⟩ h
    exact h line
  · intro us a _
    exact ⟨[], _, fun _ => .mk .empty⟩

end Primer.Grammar
