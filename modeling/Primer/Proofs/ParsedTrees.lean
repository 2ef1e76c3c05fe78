import Mathlib.Logic.Relation
import Primer.Proofs.Leaves
import Primer.Proofs.Lexing.Identifiers
import Primer.Proofs.Lines.Provenance

/-! # What a parsed tree rules out

Checking and evaluating are defined for all trees, also for those that use a statement as a value or
name a type that does not exist. Parsed trees are none of these, so the faults that are meant for them
are never reported. The one way for types to mismatch in a text is a sign in front of a float.
-/
namespace Primer

namespace Tree

/-- The trees that a tree evaluates directly. -/
inductive Evaluates : Tree → Tree → Prop
  | left {left right : Tree} {op : BinaryOperator} {line : Nat} :
      Evaluates (.binary left op right line) left
  | right {left right : Tree} {op : BinaryOperator} {line : Nat} :
      Evaluates (.binary left op right line) right
  | operand {sign : Sign} {operand : Tree} {line : Nat} :
      Evaluates (.signed sign operand line) operand
  | value {name : String} {value : Tree} {line : Nat} :
      Evaluates (.assignment name value line) value
  | initializer {name typeName : String} {typeLine line : Nat} {init : Tree} :
      Evaluates (.declaration name typeName typeLine (some init) line) init
  | child {children : List Tree} {line : Nat} {tree : Tree} (h : tree ∈ children) :
      Evaluates (.block children line) tree

/-- The trees that are evaluated in the course of evaluating a tree. -/
def HasPart : Tree → Tree → Prop := Relation.ReflTransGen Evaluates

theorem HasPart.refl (tree : Tree) : HasPart tree tree := Relation.ReflTransGen.refl

theorem Evaluates.hasPart {tree child part : Tree} (h : Evaluates tree child)
    (hpart : HasPart child part) : HasPart tree part :=
  Relation.ReflTransGen.head h hpart

theorem HasPart.trans {tree child part : Tree} (h : HasPart tree child) (hpart : HasPart child part) :
    HasPart tree part :=
  Relation.ReflTransGen.trans h hpart

theorem IsStatement.hasPart_of_mem_leaves {tree : Tree} (h : tree.IsStatement) :
    ∀ leaf ∈ tree.leaves, tree.HasPart leaf := by
  induction h with
  | empty => exact fun _ hleaf => nomatch hleaf
  | procedure => exact fun _ hleaf => nomatch hleaf
  | assignment => exact List.forall_mem_singleton.mpr (.refl _)
  | block _ _ ih =>
    intro leaf hleaf
    obtain ⟨tree, htree, hleaf⟩ := mem_leavesAll hleaf
    exact (Evaluates.child htree).hasPart (ih tree htree leaf hleaf)
  | declarations _ hdeclarations =>
    intro leaf hleaf
    obtain ⟨tree, htree, hleaf⟩ := mem_leavesAll hleaf
    rw [(hdeclarations tree htree).leaves_eq] at hleaf
    obtain rfl := List.mem_singleton.mp hleaf
    exact (Evaluates.child htree).hasPart (.refl _)

theorem hasPart_of_mem_stored? {leaf value : Tree} (h : value ∈ leaf.stored?) :
    leaf.HasPart value := by
  cases leaf with
  | assignment name v line =>
    cases h
    exact Evaluates.value.hasPart (.refl _)
  | declaration name typeName typeLine init line =>
    obtain rfl : init = some value := h
    exact Evaluates.initializer.hasPart (.refl _)
  | _ => cases h

theorem IsExpression.error_of_binary {left right : Tree} (hleft : left.IsExpression)
    (hright : right.IsExpression) {op : BinaryOperator} {line : Nat} {env env' : Environment}
    {f : EvaluationFault} (h : (Tree.binary left op right line).eval.run env = .error f env') :
    left.eval.run env = .error f env' ∨ right.eval.run env = .error f env' := by
  rw [eval, EStateM.run_bind] at h
  rcases hleft.eval_cases env with ⟨x, hx⟩ | ⟨g, hg⟩
  · rw [hx] at h
    change (right.eval >>= _).run env = _ at h
    rw [EStateM.run_bind] at h
    rcases hright.eval_cases env with ⟨y, hy⟩ | ⟨g, hg⟩
    · rw [hy] at h
      cases h
    · rw [hg] at h
      exact .inr (hg.trans h)
  · rw [hg] at h
    exact .inl (hg.trans h)

theorem IsExpression.error_of_signed {operand : Tree} (h : operand.IsExpression) {sign : Sign}
    {line : Nat} {env env' : Environment} {f : EvaluationFault}
    (hf : (Tree.signed sign operand line).eval.run env = .error f env') :
    operand.eval.run env = .error f env' ∨
      ∃ value, operand.eval.run env = .ok (some value) env ∧ sign.apply value line = .error f := by
  rw [eval, EStateM.run_bind] at hf
  rcases h.eval_cases env with ⟨x, hx⟩ | ⟨g, hg⟩
  · rw [hx] at hf
    change ((MonadExcept.ofExcept (sign.apply x line) : Evaluator Value) >>= _).run env = _ at hf
    refine .inr ⟨x, hx, ?_⟩
    cases happly : sign.apply x line with
    | ok y =>
      rw [happly] at hf
      cases hf
    | error g =>
      rw [happly] at hf
      cases hf
      rfl
  · rw [hg] at hf
    exact .inl (hg.trans hf)

theorem IsExpression.exists_signed {tree : Tree} (h : tree.IsExpression) {sign : Sign} {x : Float}
    {line : Nat} {env env' : Environment}
    (hf : tree.eval.run env = .error (.signOnFloat sign x line) env') :
    ∃ operand, tree.HasPart (.signed sign operand line) ∧
      operand.eval.run env = .ok (some (.float x)) env := by
  induction h with
  | literal => cases hf
  | @«variable» name line =>
    rw [eval, EStateM.run_bind] at hf
    have hread : (Evaluator.read name line).run env = _ := Evaluator.read_eq
    rw [hread] at hf
    cases hget : env.get? name with
    | none =>
      rw [hget] at hf
      cases hf
    | some value =>
      rw [hget] at hf
      cases hf
  | binary hleft hright ihl ihr =>
    rcases hleft.error_of_binary hright hf with hf | hf
    · obtain ⟨operand, hpart, hfloat⟩ := ihl hf
      exact ⟨operand, Evaluates.left.hasPart hpart, hfloat⟩
    · obtain ⟨operand, hpart, hfloat⟩ := ihr hf
      exact ⟨operand, Evaluates.right.hasPart hpart, hfloat⟩
  | @signed sign' inner line' hinner ih =>
    rcases hinner.error_of_signed hf with hf | ⟨value, hvalue, happly⟩
    · obtain ⟨operand, hpart, hfloat⟩ := ih hf
      exact ⟨operand, Evaluates.operand.hasPart hpart, hfloat⟩
    · cases value with
      | float y =>
        cases happly
        exact ⟨inner, .refl _, hvalue⟩
      | int n =>
        cases sign' with
        | plus => cases happly
        | minus =>
          rw [Sign.apply] at happly
          split at happly
          · cases happly
          · cases happly

theorem IsStatement.exists_signed {tree : Tree} (h : tree.IsStatement) {sign : Sign} {x : Float}
    {line : Nat} {env env' : Environment}
    (hf : tree.eval.run env = .error (.signOnFloat sign x line) env') :
    ∃ operand, tree.HasPart (.signed sign operand line) ∧
      operand.eval.run env' = .ok (some (.float x)) env' := by
  obtain ⟨leaf, mid, hstops⟩ := run_eval_eq_error_iff.mp hf
  have hmem := hstops.mem
  have hleaf := h.isSimple leaf hmem
  obtain ⟨before, after, -, -, hfails⟩ := hstops
  rw [run_effect_eq_error_iff] at hfails
  obtain rfl := hleaf.env_of_error hfails
  obtain ⟨value, hstored, hvalue, hf⟩ := hleaf.eval_eq_error_iff.mp hfails
  obtain ⟨operand, hpart, hfloat⟩ := hvalue.exists_signed hf
  have hleaf := h.hasPart_of_mem_leaves leaf hmem
  exact ⟨operand, hleaf.trans ((hasPart_of_mem_stored? hstored).trans hpart), hfloat⟩

theorem IsStatement.givesValue_eq {tree : Tree} (h : tree.IsStatement) :
    tree.givesValue = false := by
  cases h <;> rfl

theorem IsStatement.result_eq_none {tree : Tree} (h : tree.IsStatement) {outcome : Outcome}
    (houtcome : tree.outcome = .ok outcome) : outcome.result = none := by
  have hsome := isSome_of_eval (outcome_eq_ok_iff.mp houtcome)
  rw [h.givesValue_eq] at hsome
  exact Option.isNone_iff_eq_none.mp (Option.isSome_eq_false_iff.mp hsome)

/-- The names and the integers of the tree can be written down, and the text holds the names. -/
structure WrittenIn (tree : Tree) (source : String) : Prop where
  names : ∀ name ∈ tree.identifiers, Lexing.NamedIn source name
  integers : ∀ n, .int n ∈ tree.literals → 0 ≤ n.toInt ∧ n.toInt ≤ 9223372036854775807

/-- The evaluation of the tree has come to a sign whose operand is a float. -/
inductive SignsFloat (tree : Tree) : Fault → Prop
  | mk {sign : Sign} {operand : Tree} {line : Nat} {x : Float} {env : Environment}
      (hpart : tree.HasPart (.signed sign operand line))
      (hfails : tree.eval.run .empty = .error (.signOnFloat sign x line) env)
      (hfloat : operand.eval.run env = .ok (some (.float x)) env) :
      SignsFloat tree (.evaluation (.signOnFloat sign x line))

end Tree

theorem TokenStream.namedIn_of_mem_identifiers {source name : String} {l : TokenList}
    (hl : (ofString source).toTokenList = .ok l)
    (hname : name ∈ Grammar.Tokens.identifiers l.tokens) : Lexing.NamedIn source name := by
  rw [tokens_of_toTokenList hl] at hname
  obtain ⟨u, hmem, hidentifier⟩ := List.mem_filterMap.mp hname
  have htoken : u.token = .name name := by
    cases htoken : u.token <;> simp_all [Token.identifier?]
  exact Lexing.namedIn_of_mem hmem htoken

theorem toInt_of_le_largestInteger {n : Int64} (h : ∃ k ≤ Lexeme.largestInteger, n = Int64.ofNat k) :
    0 ≤ n.toInt ∧ n.toInt ≤ 9223372036854775807 := by
  obtain ⟨k, hk, rfl⟩ := h
  unfold Lexeme.largestInteger at hk
  have hint := Int64.toInt_ofNat_of_lt (n := k) (by omega)
  omega

namespace Explained
variable {s : TokenStream} {f : Fault}

theorem ne_unknownType (h : Explained s f) (name : String) (line : Nat) :
    f ≠ .declaration (.unknownType name line) := by
  rintro rfl
  cases h

theorem eq_signOnFloat (h : Explained s f) (hheading : f.heading = "TypeMismatch") :
    ∃ sign x line, f = .evaluation (.signOnFloat sign x line) := by
  cases h with
  | signOnFloat => exact ⟨_, _, _, rfl⟩
  | _ => simp [Fault.heading] at hheading

end Explained

namespace Program
variable {source : String} {tree : Tree}

theorem writtenIn_of_parse (h : parse source = .ok tree) : tree.WrittenIn source := by
  refine ⟨?_, fun n hn => toInt_of_le_largestInteger (int_of_parse h hn)⟩
  intro name hname
  obtain ⟨l, hl, hderives⟩ := parse_eq_ok_iff.mp h
  rw [collects_identifiers.program_eq hderives] at hname
  exact TokenStream.namedIn_of_mem_identifiers hl hname

theorem exists_signsFloat {f : Fault} (h : interpret source = .error f)
    (hheading : f.heading = "TypeMismatch") : ∃ tree, parse source = .ok tree ∧ tree.SignsFloat f := by
  obtain ⟨sign, x, line, rfl⟩ := (explained_of_interpret h).eq_signOnFloat hheading
  obtain ⟨tree, hparse, env, hfails⟩ := exists_tree_of_interpret h
  obtain ⟨operand, hpart, hfloat⟩ := (isStatement_of_parse hparse).exists_signed hfails
  exact ⟨tree, hparse, .mk hpart hfails hfloat⟩

theorem result_eq_none_of_interpret {outcome : Outcome} (h : interpret source = .ok outcome) :
    outcome.result = none := by
  cases hparse : parse source with
  | error f =>
    rw [interpret_eq, hparse] at h
    cases h
  | ok tree =>
    rw [interpret_of_parse hparse] at h
    exact (isStatement_of_parse hparse).result_eq_none h

end Program

namespace Expression
variable {source : String} {tree : Tree}

theorem writtenIn_of_parse (h : parse source = .ok tree) : tree.WrittenIn source := by
  refine ⟨?_, fun n hn => toInt_of_le_largestInteger (int_of_parse h hn)⟩
  intro name hname
  obtain ⟨l, hl, hderives⟩ := parse_eq_ok_iff.mp h
  rw [collects_identifiers.expressionRules.expression hderives] at hname
  exact TokenStream.namedIn_of_mem_identifiers hl hname

theorem exists_signsFloat {f : Fault} (h : evaluate source = .error f)
    (hheading : f.heading = "TypeMismatch") : ∃ tree, parse source = .ok tree ∧ tree.SignsFloat f := by
  obtain ⟨sign, x, line, rfl⟩ := (explained_of_evaluate h).eq_signOnFloat hheading
  obtain ⟨tree, hparse, env, hvalue⟩ := exists_tree_of_evaluate h
  have htree := isExpression_of_parse hparse
  have hfails : tree.eval.run .empty = .error (.signOnFloat sign x line) .empty := by
    rw [Tree.evalValue, EStateM.run_bind] at hvalue
    rcases htree.eval_cases .empty with ⟨value, heval⟩ | ⟨g, heval⟩
    · rw [heval] at hvalue
      cases hvalue
    · rw [heval] at hvalue
      cases hvalue
      exact heval
  obtain ⟨operand, hpart, hfloat⟩ := htree.exists_signed hfails
  exact ⟨tree, hparse, .mk hpart hfails hfloat⟩

end Expression

/-- Parsed trees have the shape of statements and expressions, and their names and integers are those
of a text. Therefore no type is unknown, types mismatch at the sign of a float only, and a program
that succeeds has no result. -/
theorem parsed_tree_well_formed (source : String) :
    (∀ tree, Program.parse source = .ok tree → tree.IsStatement ∧ tree.WrittenIn source) ∧
    (∀ tree, Expression.parse source = .ok tree → tree.IsExpression ∧ tree.WrittenIn source) ∧
    (∀ name line, Program.check source ≠ .error (.declaration (.unknownType name line)) ∧
      Program.run source ≠ .error (.declaration (.unknownType name line))) ∧
    (∀ f, f.heading = "TypeMismatch" →
      (Program.interpret source = .error f ∨ Program.run source = .error f →
        ∃ tree, Program.parse source = .ok tree ∧ tree.SignsFloat f) ∧
      (Expression.evaluate source = .error f →
        ∃ tree, Expression.parse source = .ok tree ∧ tree.SignsFloat f)) ∧
    ∀ outcome, Program.interpret source = .ok outcome ∨ Program.run source = .ok outcome →
      outcome.result = none := by
  refine ⟨?_, ?_, ?_, ?_, ?_⟩
  · intro tree hparse
    exact ⟨Program.isStatement_of_parse hparse, Program.writtenIn_of_parse hparse⟩
  · intro tree hparse
    exact ⟨Expression.isExpression_of_parse hparse, Expression.writtenIn_of_parse hparse⟩
  · intro name line
    constructor
    · intro hcheck
      exact (Program.explained_of_check hcheck).ne_unknownType name line rfl
    · intro hrun
      exact (Program.explained_of_run hrun).ne_unknownType name line rfl
  · intro f hheading
    refine ⟨?_, fun hevaluate => Expression.exists_signsFloat hevaluate hheading⟩
    rintro (hinterpret | hrun)
    · exact Program.exists_signsFloat hinterpret hheading
    · obtain ⟨sign, x, line, rfl⟩ := (Program.explained_of_run hrun).eq_signOnFloat hheading
      exact Program.exists_signsFloat (Program.interpret_of_run hrun) hheading
  · rintro outcome (hinterpret | hrun)
    · exact Program.result_eq_none_of_interpret hinterpret
    · obtain ⟨table, -, hinterpret⟩ := Program.exists_table_of_run hrun
      exact Program.result_eq_none_of_interpret hinterpret

/-- The float is the value of a variable. -/
theorem parsed_tree_well_formed_negated_variable :
    Program.interpret "main \x7bx = 0.5; y = -x\x7d" =
        .error (.evaluation (.signOnFloat .minus 0.5 1)) ∧
      ∃ tree, Program.parse "main \x7bx = 0.5; y = -x\x7d" = .ok tree ∧
        tree.SignsFloat (.evaluation (.signOnFloat .minus 0.5 1)) := by
  have hparse : Program.parse "main \x7bx = 0.5; y = -x\x7d" =
      .ok (.block [.assignment "x" (.literal (.float 0.5) 1) 1,
        .assignment "y" (.signed .minus (.variable "x" 1) 1) 1] 1) := by
    refine Program.parse_eq_ok_iff.mpr ⟨⟨[⟨.keyword .main, 1⟩, ⟨.mark .openBrace, 1⟩, ⟨.name "x", 1⟩,
      ⟨.mark .equals, 1⟩, ⟨.float 0.5, 1⟩, ⟨.mark .semicolon, 1⟩, ⟨.name "y", 1⟩, ⟨.mark .equals, 1⟩,
      ⟨.mark .minus, 1⟩, ⟨.name "x", 1⟩, ⟨.mark .closeBrace, 1⟩], 1⟩,
      TokenStream.toTokenList_ofString (by rfl), ?_⟩
    exact .mk (.block (.more (.assignment (.one (.one .float)))
      (.one (.assignment (.one (.one (.minus .name)))))))
  have hinterpret : Program.interpret "main \x7bx = 0.5; y = -x\x7d" =
      .error (.evaluation (.signOnFloat .minus 0.5 1)) := by
    rw [Program.interpret_of_parse hparse]
    rfl
  obtain ⟨-, -, -, hmismatch, -⟩ := parsed_tree_well_formed "main \x7bx = 0.5; y = -x\x7d"
  exact ⟨hinterpret, (hmismatch _ rfl).1 (.inl hinterpret)⟩

/-- Before a no-break space, `Int` is read as a name, although it is reserved. -/
theorem parsed_tree_type_name :
    ∃ tree, Program.parse "main Int\u00a0= 1" = .ok tree ∧ "Int" ∈ tree.identifiers ∧
      ¬ Lexing.IsIdentifier "Int" := by
  have hparse : Program.parse "main Int\u00a0= 1" = .ok (.assignment "Int" (.literal (.int 1) 1) 1) := by
    refine Program.parse_eq_ok_iff.mpr ⟨⟨[⟨.keyword .main, 1⟩, ⟨.name "Int", 1⟩, ⟨.mark .equals, 1⟩,
      ⟨.int 1, 1⟩], 1⟩, TokenStream.toTokenList_ofString (by rfl), ?_⟩
    exact .mk (.assignment (.one (.one .int)))
  refine ⟨_, hparse, List.mem_cons_self, fun h => h.not_reserved (by decide)⟩

end Primer
