import Primer.Proofs.Evaluation.Expressions

/-! # What an evaluation reads and writes

The variables that an evaluation reads and writes can be seen in the tree. The others keep their
values, also if the evaluation fails, and they have no influence on it: if two environments agree on
what is read, then the two evaluations go on in lockstep, to the same result or to the same fault.
-/
namespace Primer

/-- A variable is read or written. -/
inductive Access where
  | read (name : String)
  | write (name : String)
deriving DecidableEq

mutual

/-- How the tree accesses variables outside of the bodies of procedures, in the order of the
evaluation. A declaration without an initializer writes nothing. -/
def Tree.accesses : Tree → List Access
  | .literal .. => []
  | .binary left _ right _ => left.accesses ++ right.accesses
  | .signed _ operand _ => operand.accesses
  | .variable name _ => [.read name]
  | .assignment name value _ => value.accesses ++ [.write name]
  | .declaration _ _ _ none _ => []
  | .declaration name _ _ (some init) _ => init.accesses ++ [.write name]
  | .procedure .. => []
  | .block children _ => accessesAll children
  | .empty => []

def accessesAll : List Tree → List Access
  | [] => []
  | tree :: others => tree.accesses ++ accessesAll others

end

def Tree.Reads (tree : Tree) (name : String) : Prop := .read name ∈ tree.accesses

def Tree.Writes (tree : Tree) (name : String) : Prop := .write name ∈ tree.accesses

def Instruction.access? : Instruction → Option Access
  | .load name _ => some (.read name)
  | .store name => some (.write name)
  | _ => none

@[simp] theorem access?_demanded (tree : Tree) : tree.demanded.filterMap Instruction.access? = [] := by
  unfold Tree.demanded
  split <;> rfl

@[simp] theorem access?_ignored (tree : Tree) : tree.ignored.filterMap Instruction.access? = [] := by
  unfold Tree.ignored
  split <;> rfl

mutual

theorem access?_code : ∀ tree : Tree, tree.code.filterMap Instruction.access? = tree.accesses
  | .literal .. => rfl
  | .binary left op right _ => by
    simp [Tree.code, Tree.accesses, Instruction.access?, access?_code left, access?_code right]
  | .signed sign operand line => by
    simp [Tree.code, Tree.accesses, Instruction.access?, access?_code operand]
  | .variable .. => rfl
  | .assignment name value _ => by
    simp [Tree.code, Tree.accesses, Instruction.access?, access?_code value]
  | .declaration _ _ _ none _ => rfl
  | .declaration name _ _ (some init) _ => by
    simp [Tree.code, Tree.accesses, Instruction.access?, access?_code init]
  | .procedure .. => rfl
  | .block children _ => access?_codeAll children
  | .empty => rfl

theorem access?_codeAll : ∀ trees : List Tree,
    (codeAll trees).filterMap Instruction.access? = accessesAll trees
  | [] => rfl
  | tree :: others => by
    simp [codeAll, accessesAll, access?_code tree, access?_codeAll others]

end

theorem Tree.writes_iff {tree : Tree} {name : String} :
    tree.Writes name ↔ .store name ∈ tree.code := by
  rw [Writes, ← access?_code, List.mem_filterMap]
  constructor
  · rintro ⟨i, hi, haccess⟩
    cases i with
    | store x =>
      cases haccess
      exact hi
    | _ => cases haccess
  · intro h
    exact ⟨_, h, rfl⟩

theorem Tree.reads_of_load {tree : Tree} {name : String} {line : Nat}
    (h : .load name line ∈ tree.code) : tree.Reads name := by
  rw [Reads, ← access?_code, List.mem_filterMap]
  exact ⟨_, h, rfl⟩

theorem Instruction.Does.get?_eq {i : Instruction} {m m' : Machine} (h : i.Does m m')
    {name : String} (hi : i ≠ .store name) :
    m'.environment.get? name = m.environment.get? name := by
  cases h with
  | @store m x =>
    have hne : name ≠ x := fun heq => hi (heq ▸ rfl)
    rw [NameMap.get?_insert, if_neg hne]
  | _ => rfl

theorem get?_of_not_writes {tree : Tree} {name : String} (h : ¬ tree.Writes name)
    (env : Environment) : (finalState (tree.eval.run env)).get? name = env.get? name := by
  obtain ⟨before, after, m, hcode, hrun, henv⟩ := exists_executed tree env
  rw [← henv]
  refine execute_preserves (I := fun m => m.environment.get? name = env.get? name) ?_ rfl hrun
  intro i hi m m' hm hdoes
  have hstore : i ≠ .store name := by
    rintro rfl
    exact h (Tree.writes_iff.mpr (hcode ▸ List.mem_append_left _ hi))
  rw [hdoes.get?_eq hstore, hm]

theorem get?_ne_none_iff_of_ok {tree : Tree} {env env' : Environment} {result : Option Value}
    (h : tree.eval.run env = .ok result env') (name : String) :
    env'.get? name ≠ none ↔ env.get? name ≠ none ∨ tree.Writes name := by
  have henv := execute_environment (executed_of_ok h) name
  rw [ne_eq, henv, Classical.not_and_iff_not_or_not, Classical.not_not, Tree.writes_iff]

/-- The variables have the same value both times, or both times none. -/
def AgreeOn (names : String → Prop) (env env' : Environment) : Prop :=
  ∀ name, names name → env.get? name = env'.get? name

/-- Two computations have ended in the same way, and the states that they have left are related. -/
inductive EndAlike {ε σ α : Type} (onError onOk : σ → σ → Prop) :
    EStateM.Result ε σ α → EStateM.Result ε σ α → Prop
  | ok {a : α} {s s' : σ} (h : onOk s s') : EndAlike onError onOk (.ok a s) (.ok a s')
  | error {f : ε} {s s' : σ} (h : onError s s') : EndAlike onError onOk (.error f s) (.error f s')

structure Machine.AgreeOn (names : String → Prop) (m m' : Machine) : Prop where
  stack : m.stack = m'.stack
  environment : Primer.AgreeOn names m.environment m'.environment

section Lockstep
variable {names names' : String → Prop} {m m' : Machine}

theorem Machine.AgreeOn.mono (h : m.AgreeOn names m') (hle : ∀ name, names' name → names name) :
    m.AgreeOn names' m' :=
  ⟨h.stack, fun name hname => h.environment name (hle name hname)⟩

/-- Two machines that agree on what is loaded do the same, and then agree on what is stored too. -/
theorem Instruction.step_alike {i : Instruction} (h : m.AgreeOn names m')
    (hload : ∀ name line, i = .load name line → names name) :
    EndAlike (Machine.AgreeOn names) (Machine.AgreeOn fun name => names name ∨ i = .store name)
      (i.step.run m) (i.step.run m') := by
  obtain ⟨env, stack⟩ := m
  obtain ⟨env', stack'⟩ := m'
  obtain ⟨rfl, henv⟩ := h
  have hsilent (hi : ∀ name, i ≠ .store name) :
      Primer.AgreeOn (fun name => names name ∨ i = .store name) env env' := by
    rintro name (hname | hstore)
    · exact henv name hname
    · exact absurd hstore (hi name)
  change EndAlike _ _ (i.step ⟨env, stack⟩) (i.step ⟨env', stack⟩)
  cases i with
  | push value => exact .ok ⟨rfl, hsilent (by simp)⟩
  | combine op => exact .ok ⟨rfl, hsilent (by simp)⟩
  | drop => exact .ok ⟨rfl, hsilent (by simp)⟩
  | refuse kind line => exact .error ⟨rfl, henv⟩
  | load name line =>
    simp only [Instruction.step, ← henv name (hload name line rfl)]
    cases env.get? name with
    | none => exact .error ⟨rfl, henv⟩
    | some value => exact .ok ⟨rfl, hsilent (by simp)⟩
  | sign s line =>
    simp only [Instruction.step, Machine.top]
    cases s.apply (stack.headD (.int 0)) line with
    | error f => exact .error ⟨rfl, henv⟩
    | ok value => exact .ok ⟨rfl, hsilent (by simp)⟩
  | store x =>
    refine .ok ⟨rfl, fun name hname => ?_⟩
    simp only [NameMap.get?_insert]
    by_cases heq : name = x
    · rw [if_pos heq, if_pos heq]
      rfl
    · rw [if_neg heq, if_neg heq]
      rcases hname with hname | hstore
      · exact henv name hname
      · cases hstore
        exact absurd rfl heq

theorem execute_alike {code : List Instruction} (h : m.AgreeOn names m')
    (hload : ∀ name line, .load name line ∈ code → names name) :
    EndAlike (Machine.AgreeOn names) (Machine.AgreeOn fun name => names name ∨ .store name ∈ code)
      ((execute code).run m) ((execute code).run m') := by
  induction code generalizing names m m' with
  | nil => exact .ok (h.mono fun name hname => hname.resolve_right (by simp))
  | cons i code ih =>
    have hstep := Instruction.step_alike h fun name line hi =>
      hload name line (hi ▸ List.mem_cons_self)
    rw [execute, EStateM.run_bind, EStateM.run_bind]
    generalize i.step.run m = r at hstep
    generalize i.step.run m' = r' at hstep
    cases hstep with
    | error hagree => exact .error hagree
    | ok hagree =>
      have hrest := ih hagree fun name line hmem =>
        .inl (hload name line (List.mem_cons_of_mem _ hmem))
      simp only
      generalize (execute code).run _ = r at hrest ⊢
      generalize (execute code).run _ = r' at hrest ⊢
      cases hrest with
      | error hagree => exact .error (hagree.mono fun name hname => .inl hname)
      | ok hagree =>
        refine .ok (hagree.mono fun name hname => ?_)
        rwa [List.mem_cons, eq_comm, ← or_assoc] at hname

end Lockstep

/-- Evaluation gives the same result or the same fault in two environments that agree on what is
read. They still agree where they did before, and if it succeeds also on what is written. -/
theorem eval_alike {tree : Tree} {env env' : Environment} (h : AgreeOn tree.Reads env env') :
    EndAlike (AgreeOn fun name => env.get? name = env'.get? name)
      (AgreeOn fun name => env.get? name = env'.get? name ∨ tree.Writes name)
      (tree.eval.run env) (tree.eval.run env') := by
  have hstart : Machine.AgreeOn (fun name => env.get? name = env'.get? name) ⟨env, []⟩ ⟨env', []⟩ :=
    ⟨rfl, fun _ hname => hname⟩
  have hexecute := execute_alike hstart fun name line hload => h name (Tree.reads_of_load hload)
  have heval := realizes_eval tree [] env
  have heval' := realizes_eval tree [] env'
  generalize (execute tree.code).run ⟨env, []⟩ = r at hexecute heval
  generalize (execute tree.code).run ⟨env', []⟩ = r' at hexecute heval'
  generalize tree.eval.run env = q at heval ⊢
  generalize tree.eval.run env' = q' at heval' ⊢
  cases heval with
  | error =>
    cases heval' with
    | ok => cases hexecute
    | error =>
      cases hexecute with
      | error hagree => exact .error hagree.environment
  | @ok result _ stack hputs =>
    cases heval' with
    | error => cases hexecute
    | @ok result' _ stack' hputs' =>
      cases hexecute with
      | ok hagree =>
        have hstack : stack = stack' := hagree.stack
        rw [hputs.stack_eq, hputs'.stack_eq, List.append_nil, List.append_nil] at hstack
        obtain rfl : result = result' := by
          simpa only [Option.head?_toList] using congrArg List.head? hstack
        exact .ok fun name hname => hagree.environment name (hname.imp_right Tree.writes_iff.mp)

/-- Evaluation writes nothing but what the tree writes, and if it succeeds all of it. Nothing that it
does depends on other variables than those that the tree reads. An expression writes nothing. -/
theorem eval_confined_to_accesses (tree : Tree) (env : Environment) :
    (∀ name, ¬ tree.Writes name → (finalState (tree.eval.run env)).get? name = env.get? name) ∧
    (∀ result env', tree.eval.run env = .ok result env' →
      ∀ name, env'.get? name ≠ none ↔ env.get? name ≠ none ∨ tree.Writes name) ∧
    (∀ other, AgreeOn tree.Reads env other →
      EndAlike (AgreeOn fun name => env.get? name = other.get? name)
        (AgreeOn fun name => env.get? name = other.get? name ∨ tree.Writes name)
        (tree.eval.run env) (tree.eval.run other)) ∧
    ∀ source, Expression.parse source = .ok tree → finalState (tree.eval.run env) = env := by
  refine ⟨?_, ?_, ?_, ?_⟩
  · intro name hname
    exact get?_of_not_writes hname env
  · intro result env' hok name
    exact get?_ne_none_iff_of_ok hok name
  · intro other hreads
    exact eval_alike hreads
  · intro source hparse
    exact (Expression.isExpression_of_parse hparse).finalState_eval env

/-- An operand that assigns a variable and is then refused, in two environments that differ in another
variable; a block that assigns one; and an expression. -/
theorem eval_confined_to_accesses_assigning_operand :
    (∃ (tree : Tree) (env other : Environment) (f : EvaluationFault) (env' other' : Environment),
      env.get? "z" ≠ other.get? "z" ∧ AgreeOn tree.Reads env other ∧
      tree.eval.run env = .error f env' ∧ tree.eval.run other = .error f other' ∧
      env.get? "x" = none ∧ env'.get? "x" = some (.int 7) ∧ other'.get? "x" = some (.int 7) ∧
      ¬ tree.Writes "y" ∧ env'.get? "y" = some (.int 7)) ∧
    (∃ (tree : Tree) (env : Environment) (result : Option Value) (env' : Environment),
      tree.eval.run env = .ok result env' ∧ env.get? "x" = none ∧ env'.get? "x" ≠ none) ∧
    ∃ (tree : Tree) (env : Environment), Expression.parse "y" = .ok tree ∧
      env.get? "y" = some (.int 7) ∧ finalState (tree.eval.run env) = env := by
  let assignment : Tree := .assignment "x" (.variable "y" 1) 1
  let env : Environment := NameMap.empty.insert "y" (.int 7)
  let other : Environment := env.insert "z" (.int 2)
  refine ⟨?_, ?_, ?_⟩
  · let tree : Tree := .binary assignment .add (.literal (.int 1) 1) 1
    have hreads : AgreeOn tree.Reads env other := by
      intro name hname
      have hmem : Access.read name ∈ [.read "y", .write "x"] := hname
      simp only [List.mem_cons, Access.read.injEq, reduceCtorEq, List.not_mem_nil, or_false] at hmem
      rw [hmem]
      rfl
    have hwrites : ¬ tree.Writes "y" := by
      change Access.write "y" ∉ [.read "y", .write "x"]
      decide
    have hrun : tree.eval.run env =
        .error (.noValue "Assignment" 1) (env.insert "x" (.int 7)) := by rfl
    obtain ⟨hkept, -, halike, -⟩ := eval_confined_to_accesses tree env
    have hy := hkept "y" hwrites
    have hother := halike other hreads
    rw [hrun] at hother hy
    generalize hrun' : tree.eval.run other = r at hother
    cases hother with
    | @error f s other' hagree =>
      have hx := hagree "x" (by rfl)
      exact ⟨tree, env, other, _, _, other', by decide, hreads, hrun, hrun', by rfl, by rfl,
        hx.symm, hwrites, hy⟩
  · have hrun : (Tree.block [assignment] 1).eval.run env = .ok none (env.insert "x" (.int 7)) := by
      rfl
    have hwrites : (Tree.block [assignment] 1).Writes "x" := by
      change Access.write "x" ∈ [.read "y", .write "x"]
      decide
    obtain ⟨-, hbound, -, -⟩ := eval_confined_to_accesses (.block [assignment] 1) env
    exact ⟨_, env, none, _, hrun, by rfl, (hbound _ _ hrun "x").mpr (.inr hwrites)⟩
  · have hparse : Expression.parse "y" = .ok (.variable "y" 1) :=
      Expression.parse_eq_ok_iff.mpr ⟨⟨[⟨.name "y", 1⟩], 1⟩,
        TokenStream.toTokenList_ofString (by rfl), .one (.one .name)⟩
    obtain ⟨-, -, -, hexpression⟩ := eval_confined_to_accesses (.variable "y" 1) env
    exact ⟨_, env, hparse, by rfl, hexpression "y" hparse⟩

end Primer
