import Primer.Evaluation

/-! # Evaluation as a sequence of instructions

A program has no branches and no loops, so that its evaluation is one fixed sequence of
instructions, which is left only at a fault. The instructions work on a stack of values. What holds
along a whole evaluation, at each value that is computed on the way, is proved here instruction by
instruction.
-/
namespace Primer

inductive Instruction where
  | push (value : Value)
  | load (name : String) (line : Nat)
  | sign (sign : Sign) (line : Nat)
  | combine (op : BinaryOperator)
  | store (name : String)
  | drop
  | refuse (kind : String) (line : Nat)
deriving DecidableEq

structure Machine where
  environment : Environment
  stack : List Value

/-- The value on top of the stack. An empty stack counts as zeros, but the instructions of a tree
take from it only what they have put there. -/
def Machine.top (m : Machine) : Value := m.stack.headD (.int 0)

def Machine.pop (m : Machine) : Machine := { m with stack := m.stack.tail }

def Machine.push (m : Machine) (value : Value) : Machine := { m with stack := value :: m.stack }

@[simp] theorem Machine.environment_pop (m : Machine) : m.pop.environment = m.environment := rfl

@[simp] theorem Machine.environment_push (m : Machine) (value : Value) :
    (m.push value).environment = m.environment := rfl

abbrev Execution := EStateM EvaluationFault Machine

/-- An instruction that fails leaves the machine as it was. -/
def Instruction.step (i : Instruction) : Execution Unit := fun m =>
  match i with
  | .push value => .ok () (m.push value)
  | .load name line =>
    match m.environment.get? name with
    | some value => .ok () (m.push value)
    | none => .error (.unbound name line) m
  | .sign s line =>
    match s.apply m.top line with
    | .ok value => .ok () (m.pop.push value)
    | .error f => .error f m
  | .combine op => .ok () (m.pop.pop.push (op.apply m.pop.top m.top))
  | .store name => .ok () { m.pop with environment := m.environment.insert name m.top }
  | .drop => .ok () m.pop
  | .refuse kind line => .error (.noValue kind line) m

def execute : List Instruction → Execution Unit
  | [] => pure ()
  | i :: code => do
    i.step
    execute code

/-- The tree is an expression. -/
def Tree.givesValue : Tree → Bool
  | .literal .. | .binary .. | .signed .. | .variable .. => true
  | _ => false

/-- What is done behind a tree whose value is needed. -/
def Tree.demanded (tree : Tree) : List Instruction :=
  if tree.givesValue then [] else [.refuse tree.kind (tree.line?.getD 0)]

/-- What is done behind a tree whose value is not needed. -/
def Tree.ignored (tree : Tree) : List Instruction :=
  if tree.givesValue then [.drop] else []

theorem eq_refuse_of_mem_demanded {tree : Tree} {i : Instruction} (h : i ∈ tree.demanded) :
    i = .refuse tree.kind (tree.line?.getD 0) := by
  unfold Tree.demanded at h
  split at h
  · simp at h
  · exact List.mem_singleton.mp h

theorem eq_drop_of_mem_ignored {tree : Tree} {i : Instruction} (h : i ∈ tree.ignored) :
    i = .drop := by
  unfold Tree.ignored at h
  split at h
  · exact List.mem_singleton.mp h
  · simp at h

mutual

/-- The instructions by which a tree is evaluated. -/
def Tree.code : Tree → List Instruction
  | .literal value _ => [.push value]
  | .binary left op right _ =>
    left.code ++ left.demanded ++ right.code ++ right.demanded ++ [.combine op]
  | .signed sign operand line => operand.code ++ operand.demanded ++ [.sign sign line]
  | .variable name line => [.load name line]
  | .assignment name value _ => value.code ++ value.demanded ++ [.store name]
  | .declaration _ _ _ none _ => []
  | .declaration name _ _ (some init) _ => init.code ++ init.demanded ++ [.store name]
  | .procedure .. => []
  | .block children _ => codeAll children
  | .empty => []

def codeAll : List Tree → List Instruction
  | [] => []
  | tree :: others => tree.code ++ tree.ignored ++ codeAll others

end

theorem execute_append (c c' : List Instruction) :
    execute (c ++ c') = execute c >>= fun _ => execute c' := by
  induction c with
  | nil => simp [execute]
  | cons i c ih => simp [execute, ih]

theorem execute_singleton (i : Instruction) : execute [i] = i.step := by
  simp [execute]

/-- The instructions have ended as the evaluation has, with the same variables. -/
inductive Realized {α : Type} (Q : α → List Value → Prop) :
    EStateM.Result EvaluationFault Environment α → EStateM.Result EvaluationFault Machine Unit → Prop
  | ok {a : α} {env : Environment} {stack : List Value} (h : Q a stack) :
      Realized Q (.ok a env) (.ok () ⟨env, stack⟩)
  | error {f : EvaluationFault} {env : Environment} {stack : List Value} :
      Realized Q (.error f env) (.error f ⟨env, stack⟩)

/-- From this stack, the instructions do what the computation does. -/
def Realizes {α : Type} (code : List Instruction) (stack : List Value) (m : Evaluator α)
    (Q : α → List Value → Prop) : Prop :=
  ∀ env, Realized Q (m.run env) ((execute code).run ⟨env, stack⟩)

/-- The result stands on the stack, and nothing else does that was not there before. -/
def Puts (stack : List Value) (value : Value) (stack' : List Value) : Prop :=
  stack' = value :: stack

/-- The same for a tree, which gives a value or none. -/
structure Tree.Puts (tree : Tree) (stack : List Value) (result : Option Value)
    (stack' : List Value) : Prop where
  isSome_eq : result.isSome = tree.givesValue
  stack_eq : stack' = result.toList ++ stack

namespace Realizes
variable {α β : Type} {Q : α → List Value → Prop} {R : β → List Value → Prop}
  {code code' : List Instruction} {stack : List Value} {m : Evaluator α}

theorem pure {a : α} (h : Q a stack) : Realizes [] stack (pure a) Q :=
  fun _ => .ok h

theorem bind {k : α → Evaluator β} (h : Realizes code stack m Q)
    (hk : ∀ {a stack'}, Q a stack' → Realizes code' stack' (k a) R) :
    Realizes (code ++ code') stack (m >>= k) R := by
  intro env
  have hrun := h env
  rw [execute_append, EStateM.run_bind, EStateM.run_bind]
  generalize m.run env = r at hrun
  generalize (execute code).run ⟨env, stack⟩ = r' at hrun
  cases hrun with
  | ok hQ => exact hk hQ _
  | error => exact .error

theorem map {f : α → β} (h : Realizes code stack m Q)
    (hf : ∀ {a stack'}, Q a stack' → R (f a) stack') :
    Realizes code stack (m >>= fun a => Pure.pure (f a)) R := by
  have hbind := h.bind (k := fun a => Pure.pure (f a)) fun hQ => .pure (hf hQ)
  rwa [List.append_nil] at hbind

theorem silent {i : Instruction} {a : α} {stack' : List Value}
    (hstep : ∀ env, i.step.run ⟨env, stack⟩ = .ok () ⟨env, stack'⟩) (h : Q a stack') :
    Realizes [i] stack (Pure.pure a) Q := by
  intro env
  rw [execute_singleton, hstep]
  exact .ok h

end Realizes

theorem realizes_load (name : String) (line : Nat) (stack : List Value) :
    Realizes [.load name line] stack (Evaluator.read name line) (Puts stack) := by
  intro env
  rw [execute_singleton]
  change Realized _ (Evaluator.read name line env) (Instruction.step (.load name line) ⟨env, stack⟩)
  simp only [Evaluator.read_eq, Instruction.step]
  cases env.get? name with
  | none => exact .error
  | some value => exact .ok rfl

theorem realizes_store (name : String) (value : Value) (stack : List Value) :
    Realizes [.store name] (value :: stack) (Evaluator.write name value)
      (fun _ stack' => stack' = stack) := by
  intro env
  rw [execute_singleton]
  exact .ok rfl

theorem realizes_sign (sign : Sign) (line : Nat) (value : Value) (stack : List Value) :
    Realizes [.sign sign line] (value :: stack) (MonadExcept.ofExcept (sign.apply value line))
      (Puts stack) := by
  intro env
  rw [execute_singleton]
  change Realized _ _ (Instruction.step (.sign sign line) ⟨env, value :: stack⟩)
  simp only [Instruction.step, Machine.top, List.headD_cons]
  cases sign.apply value line with
  | error f => exact .error
  | ok result => exact .ok rfl

theorem realizes_demanded {tree : Tree} {stack stack' : List Value} {result : Option Value}
    (h : tree.Puts stack result stack') :
    Realizes tree.demanded stack' (Evaluator.demand tree result) (Puts stack) := by
  obtain ⟨hsome, rfl⟩ := h
  rw [Tree.demanded, ← hsome]
  cases result with
  | some value => exact .pure rfl
  | none =>
    intro env
    exact .error

theorem realizes_ignored {tree : Tree} {stack stack' : List Value} {result : Option Value}
    (h : tree.Puts stack result stack') :
    Realizes tree.ignored stack' (pure ()) (fun _ stack'' => stack'' = stack) := by
  obtain ⟨hsome, rfl⟩ := h
  rw [Tree.ignored, ← hsome]
  cases result with
  | some value => exact .silent (fun _ => rfl) rfl
  | none => exact .pure rfl

mutual

theorem realizes_eval : ∀ (tree : Tree) (stack : List Value),
    Realizes tree.code stack tree.eval (tree.Puts stack)
  | .literal value _, stack => .silent (fun _ => rfl) ⟨rfl, rfl⟩
  | .binary left op right _, stack => by
    simp only [Tree.code, List.append_assoc]
    refine .bind (realizes_eval left stack) fun hleft => ?_
    refine .bind (realizes_demanded hleft) ?_
    rintro x _ rfl
    refine .bind (realizes_eval right _) fun hright => ?_
    refine .bind (realizes_demanded hright) ?_
    rintro y _ rfl
    exact .silent (fun _ => rfl) ⟨rfl, rfl⟩
  | .signed sign operand line, stack => by
    simp only [Tree.code, List.append_assoc]
    refine .bind (realizes_eval operand stack) fun hoperand => ?_
    refine .bind (realizes_demanded hoperand) ?_
    rintro x _ rfl
    refine .map (realizes_sign sign line x stack) ?_
    rintro y _ rfl
    exact ⟨rfl, rfl⟩
  | .variable name line, stack => by
    refine .map (realizes_load name line stack) ?_
    rintro value _ rfl
    exact ⟨rfl, rfl⟩
  | .assignment name value _, stack => by
    simp only [Tree.code, List.append_assoc]
    refine .bind (realizes_eval value stack) fun hvalue => ?_
    refine .bind (realizes_demanded hvalue) ?_
    rintro x _ rfl
    refine .map (realizes_store name x stack) ?_
    rintro _ _ rfl
    exact ⟨rfl, rfl⟩
  | .declaration _ _ _ none _, stack => .pure ⟨rfl, rfl⟩
  | .declaration name _ _ (some init) _, stack => by
    simp only [Tree.code, List.append_assoc]
    refine .bind (realizes_eval init stack) fun hvalue => ?_
    refine .bind (realizes_demanded hvalue) ?_
    rintro x _ rfl
    refine .map (realizes_store name x stack) ?_
    rintro _ _ rfl
    exact ⟨rfl, rfl⟩
  | .procedure .., stack => .pure ⟨rfl, rfl⟩
  | .block children _, stack => by
    refine .map (realizes_evalAll children stack) ?_
    rintro _ _ rfl
    exact ⟨rfl, rfl⟩
  | .empty, stack => .pure ⟨rfl, rfl⟩

theorem realizes_evalAll : ∀ (trees : List Tree) (stack : List Value),
    Realizes (codeAll trees) stack (evalAll trees) (fun _ stack' => stack' = stack)
  | [], stack => .pure rfl
  | tree :: others, stack => by
    simp only [codeAll, List.append_assoc]
    refine .bind (realizes_eval tree stack) fun htree => ?_
    rw [← pure_bind () fun _ => evalAll others]
    refine .bind (realizes_ignored htree) ?_
    rintro _ _ rfl
    exact realizes_evalAll others _

end

inductive Instruction.Does : Instruction → Machine → Machine → Prop
  | push {m : Machine} {value : Value} : Does (.push value) m (m.push value)
  | load {m : Machine} {name : String} {line : Nat} {value : Value}
      (h : m.environment.get? name = some value) : Does (.load name line) m (m.push value)
  | sign {m : Machine} {s : Sign} {line : Nat} {value : Value}
      (h : s.apply m.top line = .ok value) : Does (.sign s line) m (m.pop.push value)
  | combine {m : Machine} {op : BinaryOperator} :
      Does (.combine op) m (m.pop.pop.push (op.apply m.pop.top m.top))
  | store {m : Machine} {name : String} :
      Does (.store name) m { m.pop with environment := m.environment.insert name m.top }
  | drop {m : Machine} : Does .drop m m.pop

inductive Instruction.Fails : Instruction → Machine → EvaluationFault → Prop
  | load {m : Machine} {name : String} {line : Nat} (h : m.environment.get? name = none) :
      Fails (.load name line) m (.unbound name line)
  | float {m : Machine} {s : Sign} {line : Nat} {x : Float} (h : m.top = .float x) :
      Fails (.sign s line) m (.signOnFloat s x line)
  | overflow {m : Machine} {line : Nat} (h : m.top = .int Int64.minValue) :
      Fails (.sign .minus line) m (.overflow line)
  | refuse {m : Machine} {kind : String} {line : Nat} :
      Fails (.refuse kind line) m (.noValue kind line)

theorem fails_of_apply {m : Machine} {s : Sign} {line : Nat} {f : EvaluationFault}
    (h : s.apply m.top line = .error f) : (Instruction.sign s line).Fails m f := by
  cases htop : m.top with
  | float x =>
    rw [htop] at h
    cases s <;> cases h <;> exact .float htop
  | int n =>
    rw [htop] at h
    cases s with
    | plus => cases h
    | minus =>
      rw [Sign.apply] at h
      split at h
      · rename_i hmin
        cases h
        exact .overflow (hmin ▸ htop)
      · cases h

theorem step_cases (i : Instruction) (m : Machine) :
    (∃ m', i.step.run m = .ok () m' ∧ i.Does m m') ∨
      ∃ f, i.step.run m = .error f m ∧ i.Fails m f := by
  change (∃ m', i.step m = .ok () m' ∧ i.Does m m') ∨ ∃ f, i.step m = .error f m ∧ i.Fails m f
  cases i with
  | push value => exact .inl ⟨_, rfl, .push⟩
  | combine op => exact .inl ⟨_, rfl, .combine⟩
  | store name => exact .inl ⟨_, rfl, .store⟩
  | drop => exact .inl ⟨_, rfl, .drop⟩
  | refuse kind line => exact .inr ⟨_, rfl, .refuse⟩
  | load name line =>
    cases hget : m.environment.get? name with
    | some value => exact .inl ⟨_, by simp [Instruction.step, hget], .load hget⟩
    | none => exact .inr ⟨_, by simp [Instruction.step, hget], .load hget⟩
  | sign s line =>
    cases happly : s.apply m.top line with
    | ok value => exact .inl ⟨_, by simp [Instruction.step, happly], .sign happly⟩
    | error f => exact .inr ⟨_, by simp [Instruction.step, happly], fails_of_apply happly⟩

theorem does_of_step {i : Instruction} {m m' : Machine} (h : i.step.run m = .ok () m') :
    i.Does m m' := by
  rcases step_cases i m with ⟨m₁, hstep, hdoes⟩ | ⟨f, hstep, -⟩
  · rw [h] at hstep
    cases hstep
    exact hdoes
  · rw [h] at hstep
    cases hstep

theorem fails_of_step {i : Instruction} {m m' : Machine} {f : EvaluationFault}
    (h : i.step.run m = .error f m') : m' = m ∧ i.Fails m f := by
  rcases step_cases i m with ⟨m₁, hstep, -⟩ | ⟨g, hstep, hfails⟩
  · rw [h] at hstep
    cases hstep
  · rw [h] at hstep
    cases hstep
    exact ⟨rfl, hfails⟩

theorem Instruction.Does.get?_eq_none_iff {i : Instruction} {m m' : Machine} (h : i.Does m m')
    (name : String) :
    m'.environment.get? name = none ↔ m.environment.get? name = none ∧ i ≠ .store name := by
  cases h with
  | @store m x =>
    simp only [NameMap.get?_insert, ne_eq, Instruction.store.injEq]
    by_cases heq : name = x
    · simp [heq]
    · simp [heq, Ne.symm heq]
  | push => simp
  | load => simp
  | sign => simp
  | combine => simp
  | drop => simp

theorem execute_cons_ok {i : Instruction} {code : List Instruction} {m m' : Machine}
    (h : (execute (i :: code)).run m = .ok () m') :
    ∃ m₁, i.step.run m = .ok () m₁ ∧ (execute code).run m₁ = .ok () m' := by
  rw [execute, EStateM.run_bind] at h
  cases hstep : i.step.run m with
  | ok _ m₁ => exact ⟨m₁, rfl, by simpa [hstep] using h⟩
  | error f m₁ => simp [hstep] at h

theorem execute_environment {code : List Instruction} {m m' : Machine}
    (h : (execute code).run m = .ok () m') (name : String) :
    m'.environment.get? name = none ↔
      m.environment.get? name = none ∧ .store name ∉ code := by
  induction code generalizing m with
  | nil =>
    cases h
    simp
  | cons i code ih =>
    obtain ⟨m₁, hstep, hcode⟩ := execute_cons_ok h
    rw [ih hcode, (does_of_step hstep).get?_eq_none_iff, List.mem_cons, not_or, and_assoc, ne_comm]

theorem execute_preserves {I : Machine → Prop} {code : List Instruction}
    (hstep : ∀ i ∈ code, ∀ {m m'}, I m → i.Does m m' → I m') {m m' : Machine} (hm : I m)
    (h : (execute code).run m = .ok () m') : I m' := by
  induction code generalizing m with
  | nil =>
    cases h
    exact hm
  | cons i code ih =>
    obtain ⟨m₁, hi, hcode⟩ := execute_cons_ok h
    have hm₁ := hstep i List.mem_cons_self hm (does_of_step hi)
    exact ih (fun j hj => hstep j (List.mem_cons_of_mem _ hj)) hm₁ hcode

theorem exists_step_of_execute_error {code : List Instruction} {m m' : Machine}
    {f : EvaluationFault} (h : (execute code).run m = .error f m') :
    ∃ before i after, code = before ++ i :: after ∧ (execute before).run m = .ok () m' ∧
      i.step.run m' = .error f m' := by
  induction code generalizing m with
  | nil => cases h
  | cons i code ih =>
    rw [execute, EStateM.run_bind] at h
    cases hstep : i.step.run m with
    | ok _ m₁ =>
      simp only [hstep] at h
      obtain ⟨before, j, after, rfl, hbefore, hj⟩ := ih h
      refine ⟨i :: before, j, after, rfl, ?_, hj⟩
      rw [execute, EStateM.run_bind, hstep]
      exact hbefore
    | error g m₁ =>
      simp only [hstep] at h
      cases h
      obtain ⟨rfl, -⟩ := fails_of_step hstep
      exact ⟨[], i, code, rfl, rfl, hstep⟩

/-- The state that a computation leaves behind, also if it fails. -/
def finalState {ε σ α : Type} : EStateM.Result ε σ α → σ
  | .ok _ s => s
  | .error _ s => s

/-- An evaluation fails by one of its instructions, behind which nothing is executed. -/
theorem exists_failing {tree : Tree} {env env' : Environment} {f : EvaluationFault}
    (h : tree.eval.run env = .error f env') :
    ∃ before i after m, tree.code = before ++ i :: after ∧
      (execute before).run ⟨env, []⟩ = .ok () m ∧ m.environment = env' ∧ i.Fails m f := by
  have hrun := realizes_eval tree [] env
  rw [h] at hrun
  generalize hexecute : (execute tree.code).run ⟨env, []⟩ = r at hrun
  cases hrun with
  | error =>
    obtain ⟨before, i, after, hsplit, hbefore, hstep⟩ := exists_step_of_execute_error hexecute
    obtain ⟨-, hfails⟩ := fails_of_step hstep
    exact ⟨before, i, after, _, hsplit, hbefore, rfl, hfails⟩

theorem executed_of_ok {tree : Tree} {env env' : Environment} {result : Option Value}
    (h : tree.eval.run env = .ok result env') :
    (execute tree.code).run ⟨env, []⟩ = .ok () ⟨env', result.toList⟩ := by
  have hrun := realizes_eval tree [] env
  rw [h] at hrun
  generalize (execute tree.code).run ⟨env, []⟩ = r at hrun
  cases hrun with
  | ok hputs => rw [hputs.stack_eq, List.append_nil]

/-- An evaluation leaves the variables as they are after the instructions that were executed. -/
theorem exists_executed (tree : Tree) (env : Environment) :
    ∃ before after m, tree.code = before ++ after ∧ (execute before).run ⟨env, []⟩ = .ok () m ∧
      m.environment = finalState (tree.eval.run env) := by
  cases heval : tree.eval.run env with
  | ok result env' => exact ⟨tree.code, [], _, by simp, executed_of_ok heval, rfl⟩
  | error f env' =>
    obtain ⟨before, i, after, m, hsplit, hbefore, henv, -⟩ := exists_failing heval
    exact ⟨before, i :: after, m, hsplit, hbefore, henv⟩

/-- A call of an interpreter, which keeps its variables from one call to the next. -/
inductive Call where
  | interpret (tree : Tree)
  | eval (tree : Tree)

namespace Call

def tree : Call → Tree
  | .interpret tree => tree
  | .eval tree => tree

/-- The variables that the evaluation starts with; a program starts without any. -/
def start (env : Environment) : Call → Environment
  | .interpret _ => .empty
  | .eval _ => env

def run (call : Call) (env : Environment) :
    EStateM.Result EvaluationFault Environment (Option Value) :=
  call.tree.eval.run (call.start env)

end Call

/-- The variables of a new interpreter after some calls. -/
def environmentAfter (calls : List Call) : Environment :=
  calls.foldl (fun env call => finalState (call.run env)) .empty

end Primer
