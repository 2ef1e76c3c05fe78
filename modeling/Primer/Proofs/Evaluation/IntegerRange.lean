import Primer.Proofs.AtEach
import Primer.Proofs.Evaluation.Instructions
import Primer.Proofs.Grammar.Literals
import Primer.Proofs.Programs

/-! # The range of the integers

Literals are not negative, binary operators give floats, and negation is symmetric. So the least
integer never comes up in the evaluation of a text, whatever was evaluated before it, and no
negation overflows.
-/
namespace Primer

def Value.InRange : Value → Prop
  | .int n => -(Lexeme.largestInteger : Int) ≤ n.toInt ∧ n.toInt ≤ Lexeme.largestInteger
  | .float _ => True

def NameMap.InRange (env : NameMap Value) : Prop :=
  ∀ name value, env.get? name = some value → value.InRange

structure Machine.InRange (m : Machine) : Prop where
  stack : ∀ value ∈ m.stack, value.InRange
  environment : m.environment.InRange

theorem Value.InRange.ofNat {k : Nat} (h : k ≤ Lexeme.largestInteger) :
    (Value.int (Int64.ofNat k)).InRange := by
  have hk : k < 2 ^ 63 := Nat.lt_succ_of_le h
  have hint := Int64.toInt_ofNat_of_lt hk
  unfold Value.InRange
  omega

theorem Value.InRange.ne_minValue {n : Int64} (h : (Value.int n).InRange) : n ≠ Int64.minValue := by
  rintro rfl
  have hmin := Int64.toInt_minValue
  obtain ⟨hlow, -⟩ := h
  unfold Lexeme.largestInteger at hlow
  omega

theorem Value.InRange.toInt_neg {n : Int64} (h : (Value.int n).InRange) :
    (-n).toInt = -n.toInt := by
  obtain ⟨hlow, hhigh⟩ := h
  unfold Lexeme.largestInteger at hlow hhigh
  rw [Int64.toInt_neg]
  exact Int.bmod_eq_of_le (by omega) (by omega)

theorem Value.InRange.neg {n : Int64} (h : (Value.int n).InRange) : (Value.int (-n)).InRange := by
  have hneg := h.toInt_neg
  obtain ⟨hlow, hhigh⟩ := h
  unfold Value.InRange
  omega

theorem Sign.inRange_of_apply {s : Sign} {x value : Value} {line : Nat} (hx : x.InRange)
    (h : s.apply x line = .ok value) : value.InRange := by
  cases x with
  | float y => cases s <;> cases h
  | int n =>
    cases s with
    | plus =>
      cases h
      exact hx
    | minus =>
      rw [Sign.apply, if_neg hx.ne_minValue] at h
      cases h
      exact hx.neg

namespace Machine.InRange
variable {m m' : Machine}

theorem top (hm : m.InRange) : m.top.InRange := by
  unfold Machine.top
  cases hstack : m.stack with
  | nil => exact ⟨by decide, by decide⟩
  | cons value stack => exact hm.stack value (by simp [hstack])

theorem pop (hm : m.InRange) : m.pop.InRange :=
  ⟨fun value hvalue => hm.stack value (List.mem_of_mem_tail hvalue), hm.environment⟩

theorem push (hm : m.InRange) {value : Value} (hvalue : value.InRange) : (m.push value).InRange := by
  refine ⟨?_, hm.environment⟩
  intro v hv
  rcases List.mem_cons.mp hv with rfl | hv
  · exact hvalue
  · exact hm.stack v hv

theorem step {i : Instruction} (hm : m.InRange) (h : i.Does m m')
    (hi : ∀ value, i = .push value → value.InRange) : m'.InRange := by
  cases h with
  | push => exact hm.push (hi _ rfl)
  | load hget => exact hm.push (hm.environment _ _ hget)
  | sign happly => exact hm.pop.push (Sign.inRange_of_apply hm.top happly)
  | combine => exact hm.pop.pop.push trivial
  | drop => exact hm.pop
  | @store m x =>
    refine ⟨hm.pop.stack, ?_⟩
    intro name value hget
    rw [NameMap.get?_insert] at hget
    split at hget
    · cases hget
      exact hm.top
    · exact hm.environment name value hget

end Machine.InRange

theorem push_not_mem_demanded (tree : Tree) (value : Value) : .push value ∉ tree.demanded := by
  intro h
  cases eq_refuse_of_mem_demanded h

theorem push_not_mem_ignored (tree : Tree) (value : Value) : .push value ∉ tree.ignored := by
  intro h
  cases eq_drop_of_mem_ignored h

mutual

theorem mem_literals_of_push : ∀ (tree : Tree) {value : Value}, .push value ∈ tree.code →
    value ∈ tree.literals
  | .literal _ _, value, h => by simpa [Tree.code, Tree.literals] using h
  | .binary left _ right _, value, h => by
    have h : .push value ∈ left.code ∨ .push value ∈ right.code := by
      simpa [Tree.code, push_not_mem_demanded] using h
    rw [Tree.literals, List.mem_append]
    exact h.imp (mem_literals_of_push left) (mem_literals_of_push right)
  | .signed _ operand _, value, h => by
    have h : .push value ∈ operand.code := by
      simpa [Tree.code, push_not_mem_demanded] using h
    exact mem_literals_of_push operand h
  | .variable .., value, h => by simp [Tree.code] at h
  | .assignment _ tree _, value, h => by
    have h : .push value ∈ tree.code := by
      simpa [Tree.code, push_not_mem_demanded] using h
    exact mem_literals_of_push tree h
  | .declaration _ _ _ none _, value, h => by simp [Tree.code] at h
  | .declaration _ _ _ (some init) _, value, h => by
    have h : .push value ∈ init.code := by
      simpa [Tree.code, push_not_mem_demanded] using h
    exact mem_literals_of_push init h
  | .procedure .., value, h => by simp [Tree.code] at h
  | .block children _, value, h => mem_literalsAll_of_push children h
  | .empty, value, h => by simp [Tree.code] at h

theorem mem_literalsAll_of_push : ∀ (trees : List Tree) {value : Value},
    .push value ∈ codeAll trees → value ∈ literalsAll trees
  | [], value, h => by simp [codeAll] at h
  | tree :: others, value, h => by
    have h : .push value ∈ tree.code ∨ .push value ∈ codeAll others := by
      simpa [codeAll, push_not_mem_ignored] using h
    rw [literalsAll, List.mem_append]
    exact h.imp (mem_literals_of_push tree) (mem_literalsAll_of_push others)

end

/-- The tree was read from the text of a program or of an expression. -/
def Tree.FromText (tree : Tree) : Prop :=
  ∃ source, Program.parse source = .ok tree ∨ Expression.parse source = .ok tree

theorem Tree.FromText.inRange {tree : Tree} (h : tree.FromText) :
    ∀ value ∈ tree.literals, value.InRange := by
  intro value hvalue
  obtain ⟨source, h⟩ := h
  cases value with
  | float x => trivial
  | int n =>
    obtain ⟨k, hk, rfl⟩ := h.elim (fun h => Program.int_of_parse h hvalue)
      fun h => Expression.int_of_parse h hvalue
    exact .ofNat hk

theorem Tree.FromText.reached {tree : Tree} (h : tree.FromText) {env : Environment}
    (henv : env.InRange) {before after : List Instruction} {m : Machine}
    (hcode : tree.code = before ++ after) (hm : (execute before).run ⟨env, []⟩ = .ok () m) :
    m.InRange := by
  have hstart : (Machine.mk env []).InRange := ⟨by simp, henv⟩
  refine execute_preserves (fun i hi m m' hm hdoes => hm.step hdoes ?_) hstart hm
  rintro value rfl
  exact h.inRange value (mem_literals_of_push tree (by simp [hcode, hi]))

theorem Tree.FromText.eval_ne_overflow {tree : Tree} (h : tree.FromText) {env : Environment}
    (henv : env.InRange) (line : Nat) (env' : Environment) :
    tree.eval.run env ≠ .error (.overflow line) env' := by
  intro hoverflow
  obtain ⟨before, i, after, m, hsplit, hbefore, -, hfails⟩ := exists_failing hoverflow
  have hm := h.reached henv hsplit hbefore
  cases hfails with
  | overflow htop => exact (htop ▸ hm.top).ne_minValue rfl

/-- All integers of a call are in range, those that it only computes on the way included. -/
structure Call.StaysInRange (call : Call) (env : Environment) : Prop where
  executed : Realized (call.tree.Puts []) (call.run env)
    ((execute call.tree.code).run ⟨call.start env, []⟩)
  reached : ∀ {before after m}, call.tree.code = before ++ after →
    (execute before).run ⟨call.start env, []⟩ = .ok () m → m.InRange
  stored : (finalState (call.run env)).InRange
  result : ∀ {value env'}, call.run env = .ok (some value) env' → value.InRange
  no_overflow : ∀ line env', call.run env ≠ .error (.overflow line) env'

theorem NameMap.inRange_empty : (NameMap.empty : NameMap Value).InRange := by
  intro name value h
  simp at h

theorem Call.inRange_start {call : Call} {env : Environment} (henv : env.InRange) :
    (call.start env).InRange := by
  cases call with
  | interpret tree => exact NameMap.inRange_empty
  | eval tree => exact henv

theorem Call.staysInRange {call : Call} {env : Environment} (h : call.tree.FromText)
    (henv : env.InRange) : call.StaysInRange env := by
  have hstart := call.inRange_start henv
  have hexecuted := realizes_eval call.tree [] (call.start env)
  refine ⟨hexecuted, h.reached hstart, ?_, ?_, h.eval_ne_overflow hstart⟩
  · obtain ⟨before, after, m, hcode, hrun, hm⟩ := exists_executed call.tree (call.start env)
    rw [Call.run, ← hm]
    exact (h.reached hstart hcode hrun).environment
  · intro value env' hrun
    rw [← Call.run, hrun] at hexecuted
    generalize hexecute : (execute call.tree.code).run ⟨call.start env, []⟩ = r at hexecuted
    cases hexecuted with
    | ok hputs =>
      have hm := h.reached hstart (List.append_nil _).symm hexecute
      exact hm.stack value (by simp [hputs.stack_eq])

theorem inRange_environmentAfter {calls : List Call} (h : ∀ call ∈ calls, call.tree.FromText) :
    (environmentAfter calls).InRange := by
  induction calls using List.reverseRecOn with
  | nil => exact NameMap.inRange_empty
  | append_singleton calls call ih =>
    have henv := ih fun c hc => h c (List.mem_append_left _ hc)
    have hcall := call.staysInRange (h call (by simp)) henv
    rw [environmentAfter, List.foldl_append]
    exact hcall.stored

theorem Program.interpret_ne_overflow (source : String) (line : Nat) :
    Program.interpret source ≠ .error (.evaluation (.overflow line)) := by
  intro h
  obtain ⟨tree, hparse, env, heval⟩ := Program.exists_tree_of_interpret h
  have htree : tree.FromText := ⟨source, .inl hparse⟩
  exact htree.eval_ne_overflow NameMap.inRange_empty line env heval

theorem Expression.evaluate_ne_overflow (source : String) (line : Nat) :
    Expression.evaluate source ≠ .error (.evaluation (.overflow line)) := by
  intro h
  obtain ⟨tree, hparse, env, hvalue⟩ := Expression.exists_tree_of_evaluate h
  have htree : tree.FromText := ⟨source, .inr hparse⟩
  rw [Tree.evalValue, EStateM.run_bind] at hvalue
  cases heval : tree.eval.run .empty with
  | ok result env =>
    simp only [heval] at hvalue
    cases result <;> cases hvalue
  | error f env =>
    simp only [heval] at hvalue
    cases hvalue
    exact htree.eval_ne_overflow NameMap.inRange_empty line _ heval

/-- In whatever order texts are evaluated, no integer leaves the range in which each has a negative,
and nothing overflows. -/
theorem integers_stay_in_range (calls : List Call) (h : ∀ call ∈ calls, call.tree.FromText) :
    AtEach (fun earlier call => call.StaysInRange (environmentAfter earlier)) calls ∧
    ∀ source line,
      Program.interpret source ≠ .error (.evaluation (.overflow line)) ∧
      Program.run source ≠ .error (.evaluation (.overflow line)) ∧
      Expression.evaluate source ≠ .error (.evaluation (.overflow line)) := by
  constructor
  · rintro earlier call later rfl
    have hearlier := inRange_environmentAfter fun c hc => h c (List.mem_append_left _ hc)
    exact call.staysInRange (h call (by simp)) hearlier
  · intro source line
    refine ⟨Program.interpret_ne_overflow source line, ?_, Expression.evaluate_ne_overflow source line⟩
    intro hrun
    exact Program.interpret_ne_overflow source line (Program.interpret_of_run hrun)

/-- Both ends of the range are reached. -/
theorem integers_stay_in_range_at_the_ends :
    let least := Tree.assignment "x" (.signed .minus (.literal (.int 9223372036854775807) 1) 1) 1
    let greatest := Tree.signed .minus (.variable "x" 1) 1
    let env := environmentAfter [.interpret least]
    env.get? "x" = some (.int (-9223372036854775807)) ∧
    (Call.eval greatest).run env = .ok (some (.int 9223372036854775807)) env ∧
    (Call.eval greatest).StaysInRange env := by
  intro least greatest env
  have hleast : least.FromText := by
    refine ⟨"main x = -9223372036854775807", .inl (Program.parse_eq_ok_iff.mpr
      ⟨⟨[⟨.keyword .main, 1⟩, ⟨.name "x", 1⟩, ⟨.mark .equals, 1⟩, ⟨.mark .minus, 1⟩,
        ⟨.int 9223372036854775807, 1⟩], 1⟩, TokenStream.toTokenList_ofString (by rfl), ?_⟩)⟩
    exact .mk (.assignment (.one (.one (.minus .int))))
  have hgreatest : greatest.FromText := by
    refine ⟨"-x", .inr (Expression.parse_eq_ok_iff.mpr
      ⟨⟨[⟨.mark .minus, 1⟩, ⟨.name "x", 1⟩], 1⟩, TokenStream.toTokenList_ofString (by rfl), ?_⟩)⟩
    exact .one (.one (.minus .name))
  have hcalls : ∀ call ∈ [Call.interpret least, Call.eval greatest], call.tree.FromText := by
    intro call hcall
    simp only [List.mem_cons, List.not_mem_nil, or_false] at hcall
    rcases hcall with rfl | rfl
    · exact hleast
    · exact hgreatest
  obtain ⟨hrange, -⟩ := integers_stay_in_range _ hcalls
  exact ⟨by rfl, by rfl, hrange [.interpret least] (.eval greatest) [] rfl⟩

end Primer
