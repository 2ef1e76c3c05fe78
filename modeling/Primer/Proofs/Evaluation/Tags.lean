import Primer.Proofs.Grammar.Literals

/-! # Evaluating types instead of values

The tags of a program are computed like its values, except that only the basic type of each number
is kept. An evaluation with values follows the one with tags step by step, unless it negates the
least integer. No literal is that integer, and neither is the result of any operation on others.
-/
namespace Primer

/-- A fault of an evaluation that knows no numbers. -/
inductive TagFault where
  | unbound (name : String) (line : Nat)
  | mismatch (line : Nat)
deriving DecidableEq

abbrev TagEvaluator := EStateM TagFault (NameMap BasicType)

namespace TagEvaluator

def read (name : String) (line : Nat) : TagEvaluator BasicType := do
  match (← get).get? name with
  | some type => return type
  | none => throw (.unbound name line)

def write (name : String) (type : BasicType) : TagEvaluator Unit :=
  modify (·.insert name type)

def demand (tree : Tree) : Option BasicType → TagEvaluator BasicType
  | some type => return type
  | none => throw (.mismatch (tree.line?.getD 0))

/-- A sign stands before integers only and gives an integer. -/
def sign (line : Nat) : BasicType → TagEvaluator BasicType
  | .int => return .int
  | .float => throw (.mismatch line)

end TagEvaluator

open TagEvaluator

mutual

/-- The type of the tree's value, if it has one, from the types of the variables. -/
def Tree.evalTag : Tree → TagEvaluator (Option BasicType)
  | .literal value _ => return some value.type
  | .binary left _ right _ => do
    let _ ← demand left (← left.evalTag)
    let _ ← demand right (← right.evalTag)
    return some .float
  | .signed _ operand line => do
    let type ← demand operand (← operand.evalTag)
    return some (← sign line type)
  | .variable name line => return some (← read name line)
  | .assignment name value _ => do
    write name (← demand value (← value.evalTag))
    return none
  | .declaration _ _ _ none _ => return none
  | .declaration name _ _ (some init) _ => do
    write name (← demand init (← init.evalTag))
    return none
  | .procedure .. => return none
  | .block children _ => do
    evalTagAll children
    return none
  | .empty => return none

def evalTagAll : List Tree → TagEvaluator Unit
  | [] => return ()
  | tree :: others => do
    let _ ← tree.evalTag
    evalTagAll others

end

/-- The types of the variables that a tree leaves behind, starting without variables. -/
def Tree.tags (tree : Tree) : Except TagFault (NameMap BasicType) :=
  match tree.evalTag.run .empty with
  | .ok _ tags => .ok tags
  | .error g _ => .error g

/-- Both faults are of the same kind, at the same place and about the same name. -/
def TagFault.Describes : TagFault → EvaluationFault → Prop
  | .unbound name line, .unbound name' line' => name' = name ∧ line' = line
  | .mismatch line, .signOnFloat _ _ line' => line' = line
  | .mismatch line, .noValue _ line' => line' = line
  | _, _ => False

/-- The value has a negative: it is not the least integer. -/
def Value.Negatable : Value → Prop
  | .int n => n ≠ Int64.minValue
  | .float _ => True

/-- The tags are the types of the values, and each value has a negative. -/
structure Agree (env : Environment) (tags : NameMap BasicType) : Prop where
  type_eq : ∀ name, (env.get? name).map Value.type = tags.get? name
  negatable : ∀ name value, env.get? name = some value → value.Negatable

/-- Both evaluations go on or both stop. -/
inductive Corresponds {α β : Type} (Q : α → β → Prop) :
    EStateM.Result EvaluationFault Environment α →
    EStateM.Result TagFault (NameMap BasicType) β → Prop
  | ok {a : α} {b : β} {env : Environment} {tags : NameMap BasicType} (hab : Q a b)
      (hagree : Agree env tags) : Corresponds Q (.ok a env) (.ok b tags)
  | error {f : EvaluationFault} {g : TagFault} {env : Environment} {tags : NameMap BasicType}
      (hfault : g.Describes f) (hagree : Agree env tags) : Corresponds Q (.error f env) (.error g tags)

/-- From variables that agree, both computations go the same way. -/
def Simulates {α β : Type} (Q : α → β → Prop) (m : Evaluator α) (m' : TagEvaluator β) : Prop :=
  ∀ env tags, Agree env tags → Corresponds Q (m env) (m' tags)

namespace Simulates
variable {α β γ δ : Type} {Q : α → β → Prop} {R : γ → δ → Prop}

theorem pure {a : α} {b : β} (h : Q a b) : Simulates Q (pure a) (pure b) :=
  fun _ _ hagree => .ok h hagree

theorem throw {f : EvaluationFault} {g : TagFault} (h : g.Describes f) :
    Simulates Q (throw f) (throw g) :=
  fun _ _ hagree => .error h hagree

theorem bind {m : Evaluator α} {m' : TagEvaluator β} {k : α → Evaluator γ} {k' : β → TagEvaluator δ}
    (h : Simulates Q m m') (hk : ∀ {a b}, Q a b → Simulates R (k a) (k' b)) :
    Simulates R (m >>= k) (m' >>= k') := by
  intro env tags hagree
  have hstep := h env tags hagree
  change Corresponds R (EStateM.bind m k env) (EStateM.bind m' k' tags)
  unfold EStateM.bind
  generalize m env = r at hstep
  generalize m' tags = r' at hstep
  cases hstep with
  | ok hab hagree => exact hk hab _ _ hagree
  | error hfault hagree => exact .error hfault hagree

end Simulates

def Value.Typed (value : Value) (type : BasicType) : Prop :=
  value.type = type ∧ value.Negatable

/-- The tree has given a value of this type, or none in both evaluations. -/
inductive ResultTyped : Option Value → Option BasicType → Prop
  | none : ResultTyped none none
  | some {value : Value} {type : BasicType} (h : value.Typed type) :
      ResultTyped (some value) (some type)

theorem TagEvaluator.read_eq {name : String} {line : Nat} {tags : NameMap BasicType} :
    TagEvaluator.read name line tags =
      match tags.get? name with
      | some type => .ok type tags
      | none => .error (.unbound name line) tags := by
  change (match tags.get? name with
    | some type => (Pure.pure type : TagEvaluator BasicType)
    | none => throw (TagFault.unbound name line)) tags = _
  cases tags.get? name <;> rfl

theorem simulates_read (name : String) (line : Nat) :
    Simulates Value.Typed (Evaluator.read name line) (TagEvaluator.read name line) := by
  intro env tags hagree
  have htype := hagree.type_eq name
  rw [Evaluator.read_eq, TagEvaluator.read_eq, ← htype]
  cases hget : env.get? name with
  | none => exact .error ⟨rfl, rfl⟩ hagree
  | some value => exact .ok ⟨rfl, hagree.negatable name value hget⟩ hagree

theorem simulates_write {name : String} {value : Value} {type : BasicType}
    (h : value.Typed type) :
    Simulates (fun _ _ => True) (Evaluator.write name value) (TagEvaluator.write name type) := by
  intro env tags hagree
  refine .ok trivial ⟨?_, ?_⟩
  · intro other
    rw [NameMap.get?_insert, NameMap.get?_insert]
    split
    · exact congrArg some h.1
    · exact hagree.type_eq other
  · intro other v hv
    rw [NameMap.get?_insert] at hv
    split at hv
    · cases hv
      exact h.2
    · exact hagree.negatable other v hv

theorem simulates_demand (tree : Tree) {r : Option Value} {t : Option BasicType}
    (h : ResultTyped r t) :
    Simulates Value.Typed (Evaluator.demand tree r) (TagEvaluator.demand tree t) := by
  cases h with
  | none => exact .throw rfl
  | some h => exact .pure h

theorem neg_ne_minValue {n : Int64} (h : n ≠ Int64.minValue) : -n ≠ Int64.minValue := by
  intro hneg
  have hn : - -n = n := Int64.neg_neg
  rw [hneg] at hn
  exact h hn.symm

theorem simulates_sign (sign : Sign) (line : Nat) {value : Value} {type : BasicType}
    (h : value.Typed type) :
    Simulates Value.Typed (MonadExcept.ofExcept (sign.apply value line))
      (TagEvaluator.sign line type) := by
  obtain ⟨rfl, hneg⟩ := h
  cases value with
  | float x => cases sign <;> exact .throw rfl
  | int n =>
    cases sign with
    | plus => exact .pure ⟨rfl, hneg⟩
    | minus =>
      rw [Sign.apply, if_neg hneg]
      exact .pure ⟨rfl, neg_ne_minValue hneg⟩

mutual

theorem simulates_eval : ∀ tree : Tree, (∀ value ∈ tree.literals, value.Negatable) →
    Simulates ResultTyped tree.eval tree.evalTag
  | .literal value _, h => .pure (.some ⟨rfl, h value (by simp [Tree.literals])⟩)
  | .binary left op right _, h => by
    simp only [Tree.literals, List.mem_append] at h
    refine .bind (simulates_eval left fun v hv => h v (.inl hv)) fun hleft => ?_
    refine .bind (simulates_demand left hleft) fun _ => ?_
    refine .bind (simulates_eval right fun v hv => h v (.inr hv)) fun hright => ?_
    refine .bind (simulates_demand right hright) fun _ => ?_
    exact .pure (.some ⟨rfl, trivial⟩)
  | .signed sign operand line, h => by
    refine .bind (simulates_eval operand h) fun hoperand => ?_
    refine .bind (simulates_demand operand hoperand) fun hvalue => ?_
    exact .bind (simulates_sign sign line hvalue) fun hresult => .pure (.some hresult)
  | .variable name line, _ => .bind (simulates_read name line) fun h => .pure (.some h)
  | .assignment name value _, h => by
    refine .bind (simulates_eval value h) fun hvalue => ?_
    refine .bind (simulates_demand value hvalue) fun htyped => ?_
    exact .bind (simulates_write htyped) fun _ => .pure .none
  | .declaration _ _ _ none _, _ => .pure .none
  | .declaration name _ _ (some init) _, h => by
    refine .bind (simulates_eval init h) fun hvalue => ?_
    refine .bind (simulates_demand init hvalue) fun htyped => ?_
    exact .bind (simulates_write htyped) fun _ => .pure .none
  | .procedure .., _ => .pure .none
  | .block children _, h => .bind (simulates_evalAll children h) fun _ => .pure .none
  | .empty, _ => .pure .none

theorem simulates_evalAll : ∀ trees : List Tree, (∀ value ∈ literalsAll trees, value.Negatable) →
    Simulates (fun _ _ => True) (evalAll trees) (evalTagAll trees)
  | [], _ => .pure trivial
  | tree :: others, h => by
    simp only [literalsAll, List.mem_append] at h
    refine .bind (simulates_eval tree fun v hv => h v (.inl hv)) fun _ => ?_
    exact simulates_evalAll others fun v hv => h v (.inr hv)

end

theorem Program.negatable_of_parse {source : String} {tree : Tree}
    (h : Program.parse source = .ok tree) : ∀ value ∈ tree.literals, value.Negatable := by
  intro value hvalue
  cases value with
  | float x => trivial
  | int n =>
    obtain ⟨k, hk, rfl⟩ := Program.int_of_parse h hvalue
    intro hmin
    have hk' : k < 2 ^ 63 := Nat.lt_succ_of_le hk
    have hint := congrArg Int64.toInt hmin
    rw [Int64.toInt_ofNat_of_lt hk', Int64.toInt_minValue] at hint
    omega

/-- Both evaluations of a whole program succeed, with the same variables and their types, or both
fail for the same reason. -/
inductive Predicted : Except TagFault (NameMap BasicType) → Except Fault Outcome → Prop
  | ok {tags : NameMap BasicType} {outcome : Outcome}
      (h : ∀ name, (outcome.environment.get? name).map Value.type = tags.get? name) :
      Predicted (.ok tags) (.ok outcome)
  | error {g : TagFault} {f : EvaluationFault} (h : g.Describes f) :
      Predicted (.error g) (.error (.evaluation f))

theorem agree_empty : Agree .empty .empty where
  type_eq name := by rw [NameMap.get?_empty, NameMap.get?_empty, Option.map_none]
  negatable name value h := by
    rw [NameMap.get?_empty] at h
    cases h

theorem Program.predicted {source : String} {tree : Tree} (h : Program.parse source = .ok tree) :
    Predicted tree.tags (Program.interpret source) := by
  have hinterpret : Program.interpret source = tree.outcome := by
    rw [Program.interpret, h]
    rfl
  have hrun := simulates_eval tree (Program.negatable_of_parse h) .empty .empty agree_empty
  rw [hinterpret]
  unfold Tree.tags Tree.outcome EStateM.run
  generalize tree.eval .empty = r at hrun
  generalize tree.evalTag .empty = r' at hrun
  cases hrun with
  | ok _ hagree => exact .ok hagree.type_eq
  | error hfault _ => exact .error hfault

def Value.zeroed : Value → Value
  | .int _ => .int 0
  | .float _ => .float 0

mutual

/-- The tree with a zero in place of each number. -/
def Tree.withoutNumbers : Tree → Tree
  | .literal value line => .literal value.zeroed line
  | .binary left op right line => .binary left.withoutNumbers op right.withoutNumbers line
  | .signed sign operand line => .signed sign operand.withoutNumbers line
  | .variable name line => .variable name line
  | .assignment name value line => .assignment name value.withoutNumbers line
  | .declaration name type typeLine none line => .declaration name type typeLine none line
  | .declaration name type typeLine (some init) line =>
    .declaration name type typeLine (some init.withoutNumbers) line
  | .procedure name body line => .procedure name body.withoutNumbers line
  | .block children line => .block (withoutNumbersAll children) line
  | .empty => .empty

def withoutNumbersAll : List Tree → List Tree
  | [] => []
  | tree :: others => tree.withoutNumbers :: withoutNumbersAll others

end

theorem TagEvaluator.demand_withoutNumbers (tree : Tree) :
    TagEvaluator.demand tree.withoutNumbers = TagEvaluator.demand tree := by
  have hline : tree.withoutNumbers.line? = tree.line? := by
    unfold Tree.withoutNumbers
    split <;> rfl
  funext type
  cases type with
  | none => rw [TagEvaluator.demand, TagEvaluator.demand, hline]
  | some type => rfl

mutual

theorem evalTag_withoutNumbers : ∀ tree : Tree, tree.withoutNumbers.evalTag = tree.evalTag
  | .literal value _ => by cases value <;> rfl
  | .binary left _ right _ => by
    rw [Tree.withoutNumbers, Tree.evalTag, Tree.evalTag, evalTag_withoutNumbers left,
      evalTag_withoutNumbers right, demand_withoutNumbers, demand_withoutNumbers]
  | .signed _ operand _ => by
    rw [Tree.withoutNumbers, Tree.evalTag, Tree.evalTag, evalTag_withoutNumbers operand,
      demand_withoutNumbers]
  | .variable .. => rfl
  | .assignment _ value _ => by
    rw [Tree.withoutNumbers, Tree.evalTag, Tree.evalTag, evalTag_withoutNumbers value,
      demand_withoutNumbers]
  | .declaration _ _ _ none _ => rfl
  | .declaration _ _ _ (some init) _ => by
    rw [Tree.withoutNumbers, Tree.evalTag, Tree.evalTag, evalTag_withoutNumbers init,
      demand_withoutNumbers]
  | .procedure .. => rfl
  | .block children _ => by
    rw [Tree.withoutNumbers, Tree.evalTag, Tree.evalTag, evalTagAll_withoutNumbersAll children]
  | .empty => rfl

theorem evalTagAll_withoutNumbersAll : ∀ trees : List Tree,
    evalTagAll (withoutNumbersAll trees) = evalTagAll trees
  | [] => rfl
  | tree :: others => by
    rw [withoutNumbersAll, evalTagAll, evalTagAll, evalTag_withoutNumbers tree,
      evalTagAll_withoutNumbersAll others]

end

theorem Tree.tags_eq_of_withoutNumbers_eq {tree tree' : Tree}
    (h : tree'.withoutNumbers = tree.withoutNumbers) : tree'.tags = tree.tags := by
  have heval : tree'.evalTag = tree.evalTag := by
    rw [← evalTag_withoutNumbers tree', h, evalTag_withoutNumbers tree]
  rw [Tree.tags, Tree.tags, heval]

/-- The tags of a program predict whether it fails and where, and the types of the variables it
leaves behind. They predict the same for each program that differs only in its numbers. -/
theorem interpret_predicted_by_tags {source : String} {tree : Tree}
    (h : Program.parse source = .ok tree) :
    Predicted tree.tags (Program.interpret source) ∧
    ∀ source' tree', Program.parse source' = .ok tree' →
      tree'.withoutNumbers = tree.withoutNumbers →
      Predicted tree.tags (Program.interpret source') := by
  refine ⟨Program.predicted h, ?_⟩
  intro source' tree' h' hsame
  rw [← Tree.tags_eq_of_withoutNumbers_eq hsame]
  exact Program.predicted h'

/-- The product of two integers cannot be negated, whatever they are. -/
theorem interpret_predicted_by_tags_negated_product :
    Predicted (.error (.mismatch 1)) (Program.interpret "main x = -(2 * 3)") ∧
    Predicted (.error (.mismatch 1)) (Program.interpret "main x = -(0 * 9)") := by
  have hderives (m n : Int64) : Derivation.Program
      [⟨.keyword .main, 1⟩, ⟨.name "x", 1⟩, ⟨.mark .equals, 1⟩, ⟨.mark .minus, 1⟩,
        ⟨.mark .openParen, 1⟩, ⟨.int m, 1⟩, ⟨.mark .star, 1⟩, ⟨.int n, 1⟩, ⟨.mark .closeParen, 1⟩]
      (.assignment "x" (.signed .minus
        (.binary (.literal (.int m) 1) .multiply (.literal (.int n) 1) 1) 1) 1) := by
    have hproduct : Derivation.Product ([⟨.int m, 1⟩] ++ ⟨.mark .star, 1⟩ :: [⟨.int n, 1⟩])
        (.binary (.literal (.int m) 1) .multiply (.literal (.int n) 1) 1) :=
      .more (.one .int) .multiply .int
    have hfactor := @Derivation.Factor.parens _ _ 1 1 (.one hproduct)
    exact .mk (.assignment (.one (.one (.minus hfactor))))
  have hparse := Program.parse_eq_ok_iff.mpr
    ⟨_, @TokenStream.toTokenList_ofString "main x = -(2 * 3)" _ 1 (by rfl), hderives 2 3⟩
  have hparse' := Program.parse_eq_ok_iff.mpr
    ⟨_, @TokenStream.toTokenList_ofString "main x = -(0 * 9)" _ 1 (by rfl), hderives 0 9⟩
  obtain ⟨hproduct, hothers⟩ := interpret_predicted_by_tags hparse
  exact ⟨hproduct, hothers _ _ hparse' rfl⟩

end Primer
