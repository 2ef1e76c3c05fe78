import Primer.Proofs.Grammar.EarliestFault
import Primer.Proofs.Grammar.Unfolding

/-! # Progress and lookahead of the readers

A reader that succeeds has used at least one token, unless it has read the empty statement, which has
none. One token behind those that it has used is read ahead: if it cannot be read, the reader fails.
If it can, what was read depends on nothing that comes later, and it is the same in all token streams
that agree so far. The end of a text counts as a token here.
-/
namespace Primer.Grammar
open Reader Primer.Derivation

/-- What a statement is if it is not empty. -/
inductive StatementKind where
  | block
  | assignment
  | declarations
  | procedure
deriving DecidableEq

/-- The first token of a statement of this kind. -/
def StatementKind.begins : StatementKind → Token → Bool
  | .block, t => t = .mark .openBrace
  | .assignment, t => (t matches .name _)
  | .declarations, t => t = .keyword .var
  | .procedure, t => t = .keyword .proc

theorem StatementKind.startsStatement_of_begins {kind : StatementKind} {t : Token}
    (h : kind.begins t = true) : startsStatement t = true := by
  cases kind with
  | block => rw [of_decide_eq_true h, startsStatement]
  | assignment =>
    cases t with
    | name x => rfl
    | _ => cases h
  | declarations => rw [of_decide_eq_true h, startsStatement]
  | procedure => rw [of_decide_eq_true h, startsStatement]

/-- What there are readers for. -/
inductive Rule where
  | factor
  | product
  | expression
  | declaration
  | statement
  | statementOf (kind : StatementKind)
deriving DecidableEq

namespace Rule

/-- The reader of the grammar, which asks for a token only where it needs it. -/
def readOnDemand : Rule → Reader Tree
  | .factor => readFactor
  | .product => readOperation .product
  | .expression => readOperation .sum
  | .declaration => readDeclaration
  | .statement => readStatement
  | .statementOf _ => readStatement

/-- The reader on tokens that are read one ahead: it fails if there is a fault in place of the token
behind those that it has used. -/
def read (rule : Rule) : Reader Tree := rule.readOnDemand.ahead

def Phrase : Rule → Tokens → Tree → Prop
  | .factor => Factor
  | .product => Product
  | .expression => Expression
  | .declaration => Declaration
  | .statement => Statement
  | .statementOf _ => Statement

/-- A statement of a certain kind is read only where its first token stands. -/
def MayStart : Rule → Tokens → Prop
  | .statementOf kind, ts => ∃ u ∈ ts.head?, kind.begins u.token = true
  | _, _ => True

/-- From the stream, the tree is read with the first `n` tokens, and there is another one or the end
of the text behind them. -/
structure Reads (rule : Rule) (s : TokenStream) (tree : Tree) (n : Nat) : Prop where
  mayStart : rule.MayStart s.tokens
  lt_length : n < s.sightings.length
  read_eq : rule.read s.ending s.tokens = .ok (tree, s.tokens.drop n)

theorem decision (rule : Rule) (ts : Tokens) : Decision rule.readOnDemand rule.Phrase ts := by
  cases rule with
  | factor => exact (decision_levels ts).1
  | product => exact (decision_levels ts).2.1
  | expression => exact (decision_levels ts).2.2
  | declaration => exact decision_declaration
  | statement => exact (decision_statement_and_statements ts).1
  | statementOf kind => exact (decision_statement_and_statements ts).1

theorem MayStart.congr {rule : Rule} {ts us : Tokens} (h : rule.MayStart ts)
    (hhead : us.head? = ts.head?) : rule.MayStart us := by
  cases rule with
  | statementOf kind =>
    rw [MayStart, hhead]
    exact h
  | _ => trivial

end Rule

theorem Decision.of_ok {α : Type} {read : Reader α} {P : Tokens → α → Prop} {ts rest : Tokens}
    {ending : Ending} {a : α} (h : Decision read P ts) (hread : read ending ts = .ok (a, rest)) :
    ∃ used, ts = used ++ rest ∧ P used a ∧ ∀ ending others, others.head? = rest.head? →
      read ending (used ++ others) = .ok (a, others) := by
  cases h with
  | accepts used rest' a' hts hphrase hlocal =>
    have hsame := hlocal ending rest' rfl
    rw [← hts, hread] at hsame
    cases hsame
    exact ⟨used, hts, hphrase, hlocal⟩
  | refuses used rest' e hts _ hlocal =>
    have hsame := hlocal ending rest' rfl
    rw [← hts, hread] at hsame
    cases hsame

section Progress
variable {ts : Tokens} {tree : Tree}

theorem factor_ne_nil (h : Factor ts tree) : ts ≠ [] := by
  cases h <;> exact List.cons_ne_nil _ _

theorem chain_ne_nil {level : Level} {Operand : Tokens → Tree → Prop}
    (hoperand : ∀ {us tree}, Operand us tree → us ≠ []) (h : Chain level Operand ts tree) :
    ts ≠ [] := by
  cases h with
  | one h => exact hoperand h
  | more => exact List.append_ne_nil_of_right_ne_nil _ (List.cons_ne_nil _ _)

theorem declaration_ne_nil (h : Declaration ts tree) : ts ≠ [] := by
  cases h
  exact List.cons_ne_nil _ _

theorem statement_eq_nil_iff (h : Statement ts tree) : ts = [] ↔ tree = .empty := by
  cases h <;> simp

theorem readStatement_ne_empty {u : Located} {rest last : Tokens} {ending : Ending}
    (h : startsStatement u.token = true) : readStatement ending (u :: rest) ≠ .ok (.empty, last) := by
  intro hread
  obtain ⟨t, line⟩ := u
  cases t with
  | name x =>
    rw [readStatement_assignment, readAssignment_eq] at hread
    obtain ⟨_, _, -, hvalue⟩ := exists_of_andThen_eq_ok hread
    obtain ⟨value, _, -, hgive⟩ := exists_of_andThen_eq_ok hvalue
    cases hgive
  | mark m =>
    cases m with
    | openBrace =>
      rw [readStatement_block] at hread
      obtain ⟨children, _, -, hgive⟩ := exists_of_andThen_eq_ok hread
      cases hgive
    | _ => cases h
  | keyword k =>
    cases k with
    | main => cases h
    | var =>
      rw [readStatement_declarations] at hread
      obtain ⟨children, _, -, hgive⟩ := exists_of_andThen_eq_ok hread
      cases hgive
    | proc =>
      rw [readStatement_procedure] at hread
      obtain ⟨x, _, -, hbody⟩ := exists_of_andThen_eq_ok hread
      obtain ⟨body, _, -, hgive⟩ := exists_of_andThen_eq_ok hbody
      cases hgive
  | _ => cases h

theorem Rule.eq_nil_iff {rule : Rule} {used rest : Tokens} {ending : Ending}
    (hstart : rule.MayStart ts) (hread : rule.readOnDemand ending ts = .ok (tree, rest))
    (hphrase : rule.Phrase used tree) : used = [] ↔ rule = .statement ∧ tree = .empty := by
  have hsome (hrule : rule ≠ .statement) (hused : used ≠ []) :
      used = [] ↔ rule = .statement ∧ tree = .empty :=
    iff_of_false hused fun h => hrule h.1
  cases rule with
  | factor => exact hsome (by decide) (factor_ne_nil hphrase)
  | product => exact hsome (by decide) (chain_ne_nil factor_ne_nil hphrase)
  | expression => exact hsome (by decide) (chain_ne_nil (chain_ne_nil factor_ne_nil) hphrase)
  | declaration => exact hsome (by decide) (declaration_ne_nil hphrase)
  | statement =>
    rw [statement_eq_nil_iff hphrase]
    exact ⟨fun h => ⟨rfl, h⟩, fun h => h.2⟩
  | statementOf kind =>
    refine hsome (by simp) fun hnil => ?_
    obtain ⟨u, hu, hbegins⟩ := hstart
    obtain ⟨us, rfl⟩ := List.head?_eq_some_iff.mp hu
    rw [(statement_eq_nil_iff hphrase).mp hnil] at hread
    exact readStatement_ne_empty (StatementKind.startsStatement_of_begins hbegins) hread

end Progress

section Sightings
variable {s : TokenStream} {n : Nat}

theorem lexed_of_lt_length (h : n < s.sightings.length) : Lexed s.ending (s.tokens.drop n) := by
  intro f hf hdrop
  rw [TokenStream.sightings, hf, List.length_append, List.length_map] at h
  exact Nat.not_lt.mpr (List.drop_eq_nil_iff.mp hdrop) h

theorem lt_length_of_lexed (h : Lexed s.ending (s.tokens.drop n)) (hle : n ≤ s.tokens.length) :
    n < s.sightings.length := by
  rw [TokenStream.sightings, List.length_append, List.length_map]
  cases hending : s.ending with
  | finish line => exact Nat.lt_succ_of_le hle
  | fault f =>
    have hne := h f hending
    rw [ne_eq, List.drop_eq_nil_iff] at hne
    exact Nat.lt_of_not_le hne

end Sightings

namespace Rule
variable {rule : Rule} {s s' : TokenStream} {tree : Tree} {rest : Tokens} {n : Nat}

theorem exists_reads (hstart : rule.MayStart s.tokens)
    (hread : rule.read s.ending s.tokens = .ok (tree, rest)) :
    ∃ n, rule.Reads s tree n ∧ rest = s.tokens.drop n ∧
      (n = 0 ↔ rule = .statement ∧ tree = .empty) := by
  obtain ⟨hdemand, hlexed⟩ := ahead_eq_ok_iff.mp hread
  obtain ⟨used, hsplit, hphrase, -⟩ := (rule.decision s.tokens).of_ok hdemand
  have hrest : rest = s.tokens.drop used.length := by rw [hsplit, List.drop_left]
  have hle : used.length ≤ s.tokens.length := by
    rw [hsplit, List.length_append]
    omega
  have hlt : used.length < s.sightings.length := lt_length_of_lexed (hrest ▸ hlexed) hle
  refine ⟨used.length, ⟨hstart, hlt, hrest ▸ hread⟩, hrest, ?_⟩
  rw [List.length_eq_zero_iff]
  exact eq_nil_iff hstart hdemand hphrase

/-- One token behind those that are used decides. -/
theorem Reads.of_take_eq (h : rule.Reads s tree n)
    (hsame : s'.sightings.take (n + 1) = s.sightings.take (n + 1)) : rule.Reads s' tree n := by
  obtain ⟨hstart, hlt, hread⟩ := h
  obtain ⟨hdemand, -⟩ := ahead_eq_ok_iff.mp hread
  obtain ⟨used, hsplit, -, hlocal⟩ := (rule.decision s.tokens).of_ok hdemand
  have hlt' : n < s'.sightings.length := by
    have hlength := congrArg List.length hsame
    rw [List.length_take, List.length_take] at hlength
    omega
  have htake : s'.tokens.take (n + 1) = s.tokens.take (n + 1) := by
    rw [← s'.filterMap_take_sightings, hsame, s.filterMap_take_sightings]
  have hused : used = s'.tokens.take n := by
    have hbefore := congrArg (List.take n) htake
    rw [List.take_take, List.take_take, Nat.min_eq_left (Nat.le_succ n)] at hbefore
    rw [hbefore]
    exact (List.append_cancel_right ((List.take_append_drop n s.tokens).trans hsplit)).symm
  have hnext : (s'.tokens.drop n).head? = (s.tokens.drop n).head? := by
    have hget := congrArg (·[n]?) htake
    simpa only [List.head?_drop, List.getElem?_take_of_lt (Nat.lt_succ_self n)] using hget
  have hfirst : s'.tokens.head? = s.tokens.head? := by
    have hhead := congrArg List.head? htake
    simpa only [List.head?_take, Nat.succ_ne_zero, if_false] using hhead
  have hdemand' := hlocal s'.ending (s'.tokens.drop n) hnext
  rw [hused, List.take_append_drop] at hdemand'
  exact ⟨hstart.congr hfirst, hlt', ahead_of_ok hdemand' (lexed_of_lt_length hlt')⟩

end Rule

/-- A reader that succeeds has used at least one token, or it has read the empty statement with none,
and a token or the end of the text stands behind. It reads the same from each stream that agrees so
far. In its nested calls and in the rounds of its loops it asks about fewer tokens only. So these are
nested at most as deep as there are tokens, and the reading of each text ends: what calls further down
would answer has no influence on it. -/
theorem reading_progresses (s : TokenStream) :
    (∀ (rule : Rule) (tree : Tree) (rest : Tokens), rule.MayStart s.tokens →
      rule.read s.ending s.tokens = .ok (tree, rest) →
      ∃ n, rule.Reads s tree n ∧ rest = s.tokens.drop n ∧
        (n = 0 ↔ rule = .statement ∧ tree = .empty) ∧
        ∀ s' : TokenStream, s'.sightings.take (n + 1) = s.sightings.take (n + 1) →
          rule.Reads s' tree n) ∧
    (∀ calls : Calls, calls.AnswersBelow s.tokens → calls.unfold.AnswersAt s.tokens) ∧
    ∀ (calls : Calls) (depth : Nat), s.tokens.length < depth →
      (Calls.unfold^[depth] calls).AnswersAt s.tokens ∧
      s.program = wholeText (Calls.unfold^[depth] calls).program s ∧
      s.expression = wholeText ((Calls.unfold^[depth] calls).operation .sum) s := by
  refine ⟨?_, ?_, ?_⟩
  · intro rule tree rest hstart hread
    obtain ⟨n, hreads, hrest, hzero⟩ := Rule.exists_reads hstart hread
    exact ⟨n, hreads, hrest, hzero, fun s' hsame => hreads.of_take_eq hsame⟩
  · intro calls h
    exact h.unfold
  · intro calls depth h
    exact ⟨Calls.iterate_unfold_answersAt calls h, Calls.program_eq_unfolded calls h,
      Calls.expression_eq_unfolded calls h⟩

/-- A block is read in front of a semicolon, whether a fault or another token follows that, and the
empty statement is read behind the block. With the fault in place of the semicolon the block is not
read. Readers that are unfolded seven times read the block whatever they call. -/
theorem reading_progresses_block_before_fault :
    ∃ (block : Tokens) (semicolon next : Located) (tree : Tree) (f : LexicalFault) (line : Nat),
      let s : TokenStream := ⟨block ++ [semicolon], .fault f⟩
      s.tokens.length = 6 ∧ (Rule.statementOf .block).Reads s tree 5 ∧
      (Rule.statementOf .block).Reads ⟨block ++ [semicolon, next], .finish line⟩ tree 5 ∧
      (Rule.statementOf .block).read (.fault f) block = .error (.lexical f) ∧
      Rule.statement.Reads ⟨[semicolon], .fault f⟩ .empty 0 ∧
      ∀ calls : Calls, (Calls.unfold^[6] calls).AnswersBelow s.tokens ∧
        (Calls.unfold^[6] calls).unfold.AnswersAt s.tokens ∧
        (Calls.unfold^[7] calls).statement s.ending s.tokens = .ok (tree, [semicolon]) := by
  let block : Tokens := [⟨.mark .openBrace, 1⟩, ⟨.name "x", 1⟩, ⟨.mark .equals, 1⟩, ⟨.int 1, 1⟩,
    ⟨.mark .closeBrace, 1⟩]
  let semicolon : Located := ⟨.mark .semicolon, 1⟩
  let tree : Tree := .block [.assignment "x" (.literal (.int 1) 1) 1] 1
  let f : LexicalFault := .strayCharacter '$' 1 11
  have hblock : Statement block tree := .block (.one (.assignment (.one (.one .int))))
  have hread : readStatement.ahead (.fault f) (block ++ [semicolon]) = .ok (tree, [semicolon]) :=
    ahead_of_ok (readStatement_of_statement hblock _ _ (atMark_cons (by decide))) lexed_cons
  have hempty : readStatement.ahead (.fault f) [semicolon] = .ok (.empty, [semicolon]) :=
    ahead_of_ok (readStatement_of_statement .empty _ _ (atMark_cons (by decide))) lexed_cons
  obtain ⟨hprogress, hunfold, hiterate⟩ := reading_progresses ⟨block ++ [semicolon], .fault f⟩
  obtain ⟨hprogress', -, -⟩ := reading_progresses ⟨[semicolon], .fault f⟩
  obtain ⟨n, hreads, hrest, -, hlocal⟩ :=
    hprogress (.statementOf .block) tree [semicolon] ⟨_, rfl, by decide⟩ hread
  obtain ⟨m, hreads', -, hzero, -⟩ := hprogress' .statement .empty [semicolon] trivial hempty
  obtain rfl : n = 5 := by
    have hlength := congrArg List.length hrest
    have hlt : n < 6 := hreads.lt_length
    rw [List.length_drop] at hlength
    simp only [block, List.length_append, List.length_cons, List.length_nil] at hlength
    omega
  obtain rfl : m = 0 := hzero.mpr ⟨rfl, rfl⟩
  refine ⟨block, semicolon, ⟨.keyword .var, 2⟩, tree, f, 2, rfl, hreads, hlocal _ rfl, ?_, hreads',
    fun calls => ?_⟩
  · exact ahead_of_fault (readStatement_of_statement hblock (.fault f) [] (by simp [AtMark]))
  · have hbelow : (Calls.unfold^[6] calls).AnswersBelow (block ++ [semicolon]) := fun us hus =>
      Calls.iterate_unfold_answersAt calls hus
    refine ⟨hbelow, hunfold _ hbelow, ?_⟩
    rw [(hiterate calls 7 (by decide)).1.statement lexed_cons]
    exact hread

end Primer.Grammar
