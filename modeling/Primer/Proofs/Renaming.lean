import Mathlib.Logic.Equiv.Basic
import Primer.Checking
import Primer.Evaluation
import Primer.Proofs.Insertions

/-! # Names matter only up to equality

Checking and evaluation compare names and copy them, and do nothing else with them. So if different
names stay different, then all of them can be changed, in the tree and in the state, and the walk
over the tree takes the same course: it ends in the same way, with the names changed in its fault and
in the state that it leaves behind. Variables and types share their names, and no name is special
but for the basic types in the table at the start.
-/
namespace Primer

namespace NameMap
variable {α β : Type} {r : String → String} {g : α → β} {m : NameMap α}

/-- The map with other names and values. Under a name that several names have become, the last one of
them in the order of the names is found. -/
def relabel (r : String → String) (g : α → β) (m : NameMap α) : NameMap β :=
  empty.insertAll (fun e => r e.1) (fun e => g e.2) m.entries

theorem lastNamed_entries_iff (hr : Function.Injective r) {name : String} {e : String × α} :
    LastNamed (fun e => r e.1) m.entries name e ↔ e ∈ m.entries ∧ r e.1 = name := by
  constructor
  · intro h
    exact ⟨h.mem, h.key_eq⟩
  · rintro ⟨hmem, hname⟩
    obtain ⟨before, after, hsplit⟩ := List.append_of_mem hmem
    refine ⟨before, after, hsplit, hname, ?_⟩
    intro c hc heq
    have hsame : e.1 = c.1 := hr (hname.trans heq.symm)
    have hsorted := m.sorted
    rw [hsplit] at hsorted
    have hlt := (List.pairwise_cons.mp (List.pairwise_append.mp hsorted).2.1).1 c hc
    rw [hsame] at hlt
    exact String.lt_irrefl _ hlt

theorem get?_relabel_eq_some_iff (hr : Function.Injective r) {name : String} {w : β} :
    (m.relabel r g).get? name = some w ↔
      ∃ x v, m.get? x = some v ∧ r x = name ∧ g v = w := by
  rw [relabel, get?_insertAll_eq_some_iff]
  simp only [lastNamed_entries_iff hr, get?_empty, reduceCtorEq, and_false, or_false, Prod.exists,
    get?_eq_some_iff, and_assoc]

theorem get?_relabel (hr : Function.Injective r) (name : String) :
    (m.relabel r g).get? (r name) = (m.get? name).map g := by
  apply Option.ext
  intro w
  rw [get?_relabel_eq_some_iff hr, Option.map_eq_some_iff]
  constructor
  · rintro ⟨x, v, hx, hname, hv⟩
    obtain rfl := hr hname
    exact ⟨v, hx, hv⟩
  · rintro ⟨v, hname, hv⟩
    exact ⟨name, v, hname, rfl, hv⟩

theorem relabel_insert (hr : Function.Injective r) (name : String) (value : α) :
    (m.insert name value).relabel r g = (m.relabel r g).insert (r name) (g value) := by
  refine ext_get? fun other => ?_
  rw [get?_insert]
  split
  · rename_i heq
    rw [heq, get?_relabel hr, get?_insert, if_pos rfl, Option.map_some]
  · rename_i hne
    apply Option.ext
    intro w
    rw [get?_relabel_eq_some_iff hr, get?_relabel_eq_some_iff hr]
    refine exists_congr fun x => exists_congr fun v => and_congr_left ?_
    rintro ⟨rfl, -⟩
    have hx : x ≠ name := fun heq => hne (heq ▸ rfl)
    rw [get?_insert, if_neg hx]

end NameMap

def Symbol.rename (r : String → String) : Symbol → Symbol
  | .basicType name => .basicType (r name)
  | .variable name type => .variable (r name) (type.rename r)

def SymbolTable.rename (r : String → String) (table : SymbolTable) : SymbolTable :=
  ⟨table.byName.relabel r (Symbol.rename r)⟩

def Environment.rename (r : String → String) (env : Environment) : Environment :=
  env.relabel r id

mutual

/-- The tree with all its names changed, those of types and procedures too. -/
def Tree.rename (r : String → String) : Tree → Tree
  | .literal value line => .literal value line
  | .binary left op right line => .binary (left.rename r) op (right.rename r) line
  | .signed sign operand line => .signed sign (operand.rename r) line
  | .variable name line => .variable (r name) line
  | .assignment name value line => .assignment (r name) (value.rename r) line
  | .declaration name type typeLine none line =>
    .declaration (r name) (r type) typeLine none line
  | .declaration name type typeLine (some init) line =>
    .declaration (r name) (r type) typeLine (some (init.rename r)) line
  | .procedure name body line => .procedure (r name) (body.rename r) line
  | .block children line => .block (renameAll r children) line
  | .empty => .empty

def renameAll (r : String → String) : List Tree → List Tree
  | [] => []
  | tree :: others => tree.rename r :: renameAll r others

end

def DeclarationFault.rename (r : String → String) : DeclarationFault → DeclarationFault
  | .unknownType name line => .unknownType (r name) line
  | .duplicate name line => .duplicate (r name) line
  | .undeclared name line => .undeclared (r name) line

/-- Only a variable without a value is a fault with a name. -/
def EvaluationFault.rename (r : String → String) : EvaluationFault → EvaluationFault
  | .unbound name line => .unbound (r name) line
  | .signOnFloat sign x line => .signOnFloat sign x line
  | .noValue kind line => .noValue kind line
  | .overflow line => .overflow line

/-- The same end of a computation, with its fault, its state and its value changed. -/
def mapResult {ε σ α : Type} (onFault : ε → ε) (onState : σ → σ) (onValue : α → α) :
    EStateM.Result ε σ α → EStateM.Result ε σ α
  | .ok a s => .ok (onValue a) (onState s)
  | .error f s => .error (onFault f) (onState s)

/-- From the changed state, the second computation goes on as the first one does from the state, and
it ends in the same way, with everything changed. -/
def Follows {ε σ α : Type} (onFault : ε → ε) (onState : σ → σ) (onValue : α → α)
    (m m' : EStateM ε σ α) : Prop :=
  ∀ s, m'.run (onState s) = mapResult onFault onState onValue (m.run s)

namespace Follows
variable {ε σ α β : Type} {onFault : ε → ε} {onState : σ → σ} {onValue : α → α} {onValue' : β → β}

theorem pure (a : α) :
    Follows onFault onState onValue (pure a : EStateM ε σ α) (pure (onValue a)) :=
  fun _ => rfl

theorem throw (f : ε) :
    Follows onFault onState onValue (throw f : EStateM ε σ α) (throw (onFault f)) :=
  fun _ => rfl

theorem get : Follows onFault onState onState (get : EStateM ε σ σ) get :=
  fun _ => rfl

theorem modify {f f' : σ → σ} (h : ∀ s, f' (onState s) = onState (f s)) :
    Follows onFault onState id (modify f : EStateM ε σ Unit) (modify f') := by
  intro s
  simp only [EStateM.run_modify, h, mapResult, id]

theorem bind {m m' : EStateM ε σ α} {k k' : α → EStateM ε σ β}
    (h : Follows onFault onState onValue m m')
    (hk : ∀ a, Follows onFault onState onValue' (k a) (k' (onValue a))) :
    Follows onFault onState onValue' (m >>= k) (m' >>= k') := by
  intro s
  rw [EStateM.run_bind, EStateM.run_bind, h s]
  cases m.run s with
  | ok a s' => exact hk a s'
  | error f s' => rfl

end Follows

section Checking
variable {r : String → String}

theorem SymbolTable.lookup?_rename (hr : Function.Injective r) (table : SymbolTable) (name : String) :
    (table.rename r).lookup? (r name) = (table.lookup? name).map (Symbol.rename r) :=
  NameMap.get?_relabel hr name

theorem SymbolTable.rename_insert (hr : Function.Injective r) (table : SymbolTable) (s : Symbol) :
    (table.insert s).rename r = (table.rename r).insert (s.rename r) := by
  have hname : (s.rename r).name = r s.name := by
    cases s <;> rfl
  simp only [rename, insert, NameMap.relabel_insert hr, hname]

def ChecksAlike (r : String → String) {α : Type} (onValue : α → α) (m m' : Checker α) : Prop :=
  Follows (DeclarationFault.rename r) (SymbolTable.rename r) onValue m m'

namespace Checker

theorem use_alike (hr : Function.Injective r) (name : String) (line : Nat) :
    ChecksAlike r id (use name line) (use (r name) line) := by
  refine Follows.get.bind fun table => ?_
  rw [SymbolTable.lookup?_rename hr]
  cases table.lookup? name with
  | none => exact .throw _
  | some s => exact .pure _

theorem declare_alike (hr : Function.Injective r) (name : String) (type : Symbol) (line : Nat) :
    ChecksAlike r id (declare name type line) (declare (r name) (type.rename r) line) := by
  refine Follows.get.bind fun table => ?_
  rw [SymbolTable.lookup?_rename hr]
  cases table.lookup? name with
  | none => exact .modify fun now => (SymbolTable.rename_insert hr now (.variable name type)).symm
  | some s => exact .throw _

theorem resolveType_alike (hr : Function.Injective r) (name : String) (line : Nat) :
    ChecksAlike r (Symbol.rename r) (resolveType name line) (resolveType (r name) line) := by
  refine Follows.get.bind fun table => ?_
  rw [SymbolTable.lookup?_rename hr]
  rcases table.lookup? name with _ | ⟨type⟩ | ⟨x, type⟩
  · exact .throw _
  · exact .pure _
  · exact .throw _

end Checker

open Checker

mutual

theorem check_rename (hr : Function.Injective r) : ∀ tree : Tree,
    ChecksAlike r id tree.check (tree.rename r).check
  | .literal .. => .pure ()
  | .binary left _ right _ => (check_rename hr left).bind fun _ => check_rename hr right
  | .signed _ operand _ => check_rename hr operand
  | .variable name line => use_alike hr name line
  | .assignment name value line => (check_rename hr value).bind fun _ => use_alike hr name line
  | .declaration name typeName typeLine none line =>
    (resolveType_alike hr typeName typeLine).bind fun type => declare_alike hr name type line
  | .declaration name typeName typeLine (some init) line =>
    (resolveType_alike hr typeName typeLine).bind fun type =>
      (declare_alike hr name type line).bind fun _ => check_rename hr init
  | .procedure .. => .pure ()
  | .block children _ => checkAll_renameAll hr children
  | .empty => .pure ()

theorem checkAll_renameAll (hr : Function.Injective r) : ∀ trees : List Tree,
    ChecksAlike r id (checkAll trees) (checkAll (renameAll r trees))
  | [] => .pure ()
  | tree :: others => (check_rename hr tree).bind fun _ => checkAll_renameAll hr others

end

theorem SymbolTable.rename_initial (hr : Function.Injective r)
    (htypes : ∀ type : BasicType, r type.name = type.name) : initial.rename r = initial := by
  have hempty : (SymbolTable.mk .empty).rename r = .mk .empty := rfl
  simp only [initial, rename_insert hr, hempty, Symbol.rename, htypes]

end Checking

section Evaluation
variable {r : String → String}

def EvaluatesAlike (r : String → String) {α : Type} (m m' : Evaluator α) : Prop :=
  Follows (EvaluationFault.rename r) (Environment.rename r) id m m'

theorem Tree.kind_rename (tree : Tree) : (tree.rename r).kind = tree.kind := by
  unfold Tree.rename
  split <;> rfl

theorem Tree.line?_rename (tree : Tree) : (tree.rename r).line? = tree.line? := by
  unfold Tree.rename
  split <;> rfl

namespace Evaluator

theorem read_alike (hr : Function.Injective r) (name : String) (line : Nat) :
    EvaluatesAlike r (read name line) (read (r name) line) := by
  refine Follows.get.bind fun env => ?_
  rw [Environment.rename, NameMap.get?_relabel hr]
  cases env.get? name with
  | none => exact .throw _
  | some value => exact .pure _

theorem write_alike (hr : Function.Injective r) (name : String) (value : Value) :
    EvaluatesAlike r (write name value) (write (r name) value) :=
  .modify fun _ => (NameMap.relabel_insert hr name value).symm

theorem demand_alike (tree : Tree) (result : Option Value) :
    EvaluatesAlike r (demand tree result) (demand (tree.rename r) result) := by
  cases result with
  | some value => exact .pure _
  | none =>
    rw [demand, demand, Tree.kind_rename, Tree.line?_rename]
    exact .throw _

theorem apply_alike (sign : Sign) (value : Value) (line : Nat) :
    EvaluatesAlike r (MonadExcept.ofExcept (sign.apply value line))
      (MonadExcept.ofExcept (sign.apply value line)) := by
  have hfault : ∀ f, sign.apply value line = .error f → f.rename r = f := by
    intro f hf
    unfold Sign.apply at hf
    repeat' split at hf
    all_goals cases hf
    all_goals rfl
  cases h : sign.apply value line with
  | ok value => exact .pure _
  | error f =>
    nth_rewrite 2 [← hfault f h]
    exact .throw _

end Evaluator

open Evaluator

mutual

theorem eval_rename (hr : Function.Injective r) : ∀ tree : Tree,
    EvaluatesAlike r tree.eval (tree.rename r).eval
  | .literal .. => .pure _
  | .binary left _ right _ =>
    (eval_rename hr left).bind fun x => (demand_alike left x).bind fun _ =>
      (eval_rename hr right).bind fun y => (demand_alike right y).bind fun _ => .pure _
  | .signed sign operand line =>
    (eval_rename hr operand).bind fun x => (demand_alike operand x).bind fun value =>
      (apply_alike sign value line).bind fun _ => .pure _
  | .variable name line => (read_alike hr name line).bind fun _ => .pure _
  | .assignment name value _ =>
    (eval_rename hr value).bind fun x => (demand_alike value x).bind fun result =>
      (write_alike hr name result).bind fun _ => .pure _
  | .declaration _ _ _ none _ => .pure _
  | .declaration name _ _ (some init) _ =>
    (eval_rename hr init).bind fun x => (demand_alike init x).bind fun result =>
      (write_alike hr name result).bind fun _ => .pure _
  | .procedure .. => .pure _
  | .block children _ => (evalAll_renameAll hr children).bind fun _ => .pure _
  | .empty => .pure _

theorem evalAll_renameAll (hr : Function.Injective r) : ∀ trees : List Tree,
    EvaluatesAlike r (evalAll trees) (evalAll (renameAll r trees))
  | [] => .pure _
  | tree :: others => (eval_rename hr tree).bind fun _ => evalAll_renameAll hr others

end

theorem evalValue_rename (hr : Function.Injective r) (tree : Tree) :
    EvaluatesAlike r tree.evalValue (tree.rename r).evalValue :=
  (eval_rename hr tree).bind fun result => demand_alike tree result

end Evaluation

/-- If different names stay different, a renamed tree is checked and evaluated like the tree: in the
renamed table or environment, with the same result or the renamed fault, and the table or environment
that is left is the renamed one. A renaming that keeps the basic types keeps the table at the start. -/
theorem walks_rename {r : String → String} (hr : Function.Injective r) (tree : Tree)
    (table : SymbolTable) (env : Environment) :
    (tree.rename r).check.run (table.rename r) =
      mapResult (DeclarationFault.rename r) (SymbolTable.rename r) id (tree.check.run table) ∧
    (tree.rename r).eval.run (env.rename r) =
      mapResult (EvaluationFault.rename r) (Environment.rename r) id (tree.eval.run env) ∧
    (tree.rename r).evalValue.run (env.rename r) =
      mapResult (EvaluationFault.rename r) (Environment.rename r) id (tree.evalValue.run env) ∧
    ((∀ type : BasicType, r type.name = type.name) →
      SymbolTable.initial.rename r = .initial) := by
  refine ⟨?_, ?_, ?_, ?_⟩
  · exact check_rename hr tree table
  · exact eval_rename hr tree env
  · exact evalValue_rename hr tree env
  · exact SymbolTable.rename_initial hr

/-- The names of two variables are exchanged. The check stops at the one that is not declared, with
the other one in the table, and the evaluation gives each of them the value of the other. -/
theorem walks_rename_exchanged :
    ∃ (r : String → String) (tree : Tree), Function.Injective r ∧
      (∀ type : BasicType, r type.name = type.name) ∧
      tree.check.run .initial =
        .error (.undeclared "y" 2) (SymbolTable.initial.insert (.variable "x" (.basicType "Int"))) ∧
      (tree.rename r).check.run .initial =
        .error (.undeclared "x" 2) (SymbolTable.initial.insert (.variable "y" (.basicType "Int"))) ∧
      tree.eval.run (NameMap.empty.insert "y" (.int 7)) =
        .ok none (((NameMap.empty.insert "y" (.int 7)).insert "x" (.int 1)).insert "z" (.int 7)) ∧
      (tree.rename r).eval.run (NameMap.empty.insert "x" (.int 7)) =
        .ok none (((NameMap.empty.insert "x" (.int 7)).insert "y" (.int 1)).insert "z" (.int 7)) := by
  let tree : Tree := .block
    [.declaration "x" "Int" 1 (some (.literal (.int 1) 1)) 1, .assignment "z" (.variable "y" 2) 2] 1
  let env : Environment := NameMap.empty.insert "y" (.int 7)
  have hr : Function.Injective (Equiv.swap "x" "y") := (Equiv.swap "x" "y").injective
  have htypes : ∀ type : BasicType, Equiv.swap "x" "y" type.name = type.name := by
    intro type
    cases type <;> decide
  have hcheck : tree.check.run .initial = .error (.undeclared "y" 2)
      (SymbolTable.initial.insert (.variable "x" (.basicType "Int"))) := by rfl
  have heval : tree.eval.run env =
      .ok none ((env.insert "x" (.int 1)).insert "z" (.int 7)) := by rfl
  obtain ⟨hcheck', heval', -, hinitial⟩ := walks_rename hr tree .initial env
  rw [hinitial htypes, hcheck, mapResult, SymbolTable.rename_insert hr, hinitial htypes] at hcheck'
  simp only [heval, mapResult, Environment.rename, env, NameMap.relabel_insert hr] at heval'
  exact ⟨Equiv.swap "x" "y", tree, hr, htypes, hcheck, hcheck', heval, heval'⟩

end Primer
