import Primer.Proofs.Grammar.Recognition
import Primer.Proofs.Lexing.Steps
import Primer.Proofs.Lines.Renumbering
import Primer.Proofs.Programs

/-! # Layout has no meaning

Checking and evaluation pass on the lines of a tree to their faults and look at nothing but the rest
of it. Together with the same fact about reading, this means that texts with the same tokens cannot
be told apart by what they do, except for the lines in trees and faults.
-/
namespace Primer

/-- The same computation with other faults. -/
def mapFault {ε ε' σ α : Type} (g : ε → ε') (m : EStateM ε σ α) : EStateM ε' σ α := fun s =>
  match m s with
  | .ok a s' => .ok a s'
  | .error e s' => .error (g e) s'

section MapFault
variable {ε ε' σ α β : Type} {g : ε → ε'}

@[simp] theorem mapFault_pure (a : α) : mapFault g (pure a : EStateM ε σ α) = pure a := rfl

@[simp] theorem mapFault_get : mapFault g (get : EStateM ε σ σ) = get := rfl

@[simp] theorem mapFault_bind (m : EStateM ε σ α) (k : α → EStateM ε σ β) :
    mapFault g (m >>= k) = mapFault g m >>= fun a => mapFault g (k a) := by
  funext s
  change mapFault g (EStateM.bind m k) s =
    EStateM.bind (mapFault g m) (fun a => mapFault g (k a)) s
  simp only [mapFault, EStateM.bind]
  cases m s <;> rfl

end MapFault

def DeclarationFault.mapLine (f : Nat → Nat) : DeclarationFault → DeclarationFault
  | .unknownType name line => .unknownType name (f line)
  | .duplicate name line => .duplicate name (f line)
  | .undeclared name line => .undeclared name (f line)

def EvaluationFault.mapLine (f : Nat → Nat) : EvaluationFault → EvaluationFault
  | .unbound name line => .unbound name (f line)
  | .signOnFloat sign x line => .signOnFloat sign x (f line)
  | .noValue kind line => .noValue kind (f line)
  | .overflow line => .overflow (f line)

def Fault.mapLine (f : Nat → Nat) : Fault → Fault
  | .source g => .source (g.mapLine f)
  | .declaration g => .declaration (g.mapLine f)
  | .evaluation g => .evaluation (g.mapLine f)

section Checking
variable {f : Nat → Nat}

theorem Checker.use_mapLine (name : String) (line : Nat) :
    use name (f line) = mapFault (·.mapLine f) (use name line) := by
  rw [use, use, mapFault_bind, mapFault_get]
  refine bind_congr fun table => ?_
  cases table.lookup? name <;> rfl

theorem Checker.declare_mapLine (name : String) (type : Symbol) (line : Nat) :
    declare name type (f line) = mapFault (·.mapLine f) (declare name type line) := by
  rw [declare, declare, mapFault_bind, mapFault_get]
  refine bind_congr fun table => ?_
  cases table.lookup? name <;> rfl

theorem Checker.resolveType_mapLine (name : String) (line : Nat) :
    resolveType name (f line) = mapFault (·.mapLine f) (resolveType name line) := by
  rw [resolveType, resolveType, mapFault_bind, mapFault_get]
  refine bind_congr fun table => ?_
  rcases table.lookup? name with _ | ⟨type⟩ | ⟨x, type⟩ <;> rfl

open Checker

mutual

theorem check_mapLines (f : Nat → Nat) : ∀ tree : Tree,
    (tree.mapLines f).check = mapFault (·.mapLine f) tree.check
  | .literal .. => rfl
  | .binary left _ right _ => by
    rw [Tree.mapLines, Tree.check, Tree.check, mapFault_bind, check_mapLines f left,
      check_mapLines f right]
  | .signed _ operand _ => by rw [Tree.mapLines, Tree.check, Tree.check, check_mapLines f operand]
  | .variable name line => by rw [Tree.mapLines, Tree.check, Tree.check, use_mapLine]
  | .assignment name value line => by
    rw [Tree.mapLines, Tree.check, Tree.check, mapFault_bind, check_mapLines f value, use_mapLine]
  | .declaration name typeName typeLine none line => by
    simp only [Tree.mapLines, Tree.check, mapFault_bind, resolveType_mapLine, declare_mapLine]
  | .declaration name typeName typeLine (some init) line => by
    simp only [Tree.mapLines, Tree.check, mapFault_bind, resolveType_mapLine, declare_mapLine,
      check_mapLines f init]
  | .procedure .. => rfl
  | .block children _ => by
    rw [Tree.mapLines, Tree.check, Tree.check, checkAll_mapLinesAll f children]
  | .empty => rfl

theorem checkAll_mapLinesAll (f : Nat → Nat) : ∀ trees : List Tree,
    checkAll (mapLinesAll f trees) = mapFault (·.mapLine f) (checkAll trees)
  | [] => rfl
  | tree :: others => by
    rw [mapLinesAll, checkAll, checkAll, mapFault_bind, check_mapLines f tree,
      checkAll_mapLinesAll f others]

end

end Checking

section Evaluation
variable {f : Nat → Nat}

theorem Evaluator.read_mapLine (name : String) (line : Nat) :
    read name (f line) = mapFault (·.mapLine f) (read name line) := by
  rw [read, read, mapFault_bind, mapFault_get]
  refine bind_congr fun env => ?_
  cases env.get? name <;> rfl

theorem Evaluator.apply_mapLine (sign : Sign) (value : Value) (line : Nat) :
    (MonadExcept.ofExcept (sign.apply value (f line)) : Evaluator Value) =
      mapFault (EvaluationFault.mapLine f) (MonadExcept.ofExcept (sign.apply value line)) := by
  cases value with
  | float x => cases sign <;> rfl
  | int n =>
    cases sign with
    | plus => rfl
    | minus =>
      rw [Sign.apply, Sign.apply]
      split <;> rfl

theorem Tree.kind_mapLines (tree : Tree) : (tree.mapLines f).kind = tree.kind := by
  unfold Tree.mapLines
  split <;> rfl

/-- The empty statement has no line and is reported on line 0, which has to stay. -/
theorem Tree.line_mapLines (hf : f 0 = 0) (tree : Tree) :
    (tree.mapLines f).line?.getD 0 = f (tree.line?.getD 0) := by
  unfold Tree.mapLines
  split
  all_goals first | rfl | exact hf.symm

theorem Evaluator.demand_mapLines (hf : f 0 = 0) (tree : Tree) (result : Option Value) :
    demand (tree.mapLines f) result = mapFault (·.mapLine f) (demand tree result) := by
  cases result with
  | some value => rfl
  | none =>
    rw [demand, demand, Tree.kind_mapLines, Tree.line_mapLines hf]
    rfl

open Evaluator

mutual

theorem eval_mapLines (hf : f 0 = 0) : ∀ tree : Tree,
    (tree.mapLines f).eval = mapFault (·.mapLine f) tree.eval
  | .literal .. => rfl
  | .binary left op right _ => by
    simp only [Tree.mapLines, Tree.eval, mapFault_bind, mapFault_pure, eval_mapLines hf left,
      eval_mapLines hf right, demand_mapLines hf]
  | .signed sign operand line => by
    simp only [Tree.mapLines, Tree.eval, mapFault_bind, mapFault_pure, eval_mapLines hf operand,
      demand_mapLines hf, apply_mapLine]
  | .variable name line => by
    simp only [Tree.mapLines, Tree.eval, mapFault_bind, mapFault_pure, read_mapLine]
  | .assignment name value _ => by
    simp only [Tree.mapLines, Tree.eval, mapFault_bind, mapFault_pure, eval_mapLines hf value,
      demand_mapLines hf]
    rfl
  | .declaration _ _ _ none _ => rfl
  | .declaration name _ _ (some init) _ => by
    simp only [Tree.mapLines, Tree.eval, mapFault_bind, mapFault_pure, eval_mapLines hf init,
      demand_mapLines hf]
    rfl
  | .procedure .. => rfl
  | .block children _ => by
    simp only [Tree.mapLines, Tree.eval, mapFault_bind, mapFault_pure,
      evalAll_mapLinesAll hf children]
  | .empty => rfl

theorem evalAll_mapLinesAll (hf : f 0 = 0) : ∀ trees : List Tree,
    evalAll (mapLinesAll f trees) = mapFault (·.mapLine f) (evalAll trees)
  | [] => rfl
  | tree :: others => by
    simp only [mapLinesAll, evalAll, mapFault_bind, eval_mapLines hf tree,
      evalAll_mapLinesAll hf others]

end

end Evaluation

theorem Tree.symbols_mapLines (f : Nat → Nat) (tree : Tree) :
    (tree.mapLines f).symbols = mapBoth (·.mapLine f) id tree.symbols := by
  unfold Tree.symbols EStateM.run
  rw [check_mapLines, mapFault]
  cases tree.check .initial <;> rfl

theorem Tree.outcome_mapLines {f : Nat → Nat} (hf : f 0 = 0) (tree : Tree) :
    (tree.mapLines f).outcome = mapBoth (·.mapLine f) id tree.outcome := by
  unfold Tree.outcome EStateM.run
  rw [eval_mapLines hf, mapFault]
  cases tree.eval .empty <;> rfl

theorem Tree.value_mapLines {f : Nat → Nat} (hf : f 0 = 0) (tree : Tree) :
    (tree.mapLines f).value = mapBoth (·.mapLine f) id tree.value := by
  have hvalue : (tree.mapLines f).evalValue = mapFault (·.mapLine f) tree.evalValue := by
    simp only [Tree.evalValue, mapFault_bind, eval_mapLines hf, Evaluator.demand_mapLines hf]
  unfold Tree.value EStateM.run
  rw [hvalue, mapFault]
  cases tree.evalValue .empty <;> rfl

def Tree.withoutLines (tree : Tree) : Tree := tree.mapLines fun _ => 0

def Fault.withoutLine (f : Fault) : Fault := f.mapLine fun _ => 0

/-- Both results are there and the same in this sense, or both are faults of the same kind with the
same contents, except for the line. -/
inductive SameButLine {α : Type} (Same : α → α → Prop) : Except Fault α → Except Fault α → Prop
  | ok {a b : α} (h : Same a b) : SameButLine Same (.ok a) (.ok b)
  | error {f g : Fault} (h : f.withoutLine = g.withoutLine) : SameButLine Same (.error f) (.error g)

def Tree.SameButLines (tree tree' : Tree) : Prop := tree.withoutLines = tree'.withoutLines

namespace SameButLine
variable {α β : Type} {Same : α → α → Prop} {Same' : β → β → Prop}

theorem of_mapBoth {g : α → β} {r r' : Except Fault α}
    (h : mapBoth Fault.withoutLine g r = mapBoth Fault.withoutLine g r') :
    SameButLine (fun a b => g a = g b) r r' := by
  cases r with
  | ok a =>
    cases r' with
    | ok b => exact .ok (Except.ok.inj h)
    | error f => cases h
  | error f =>
    cases r' with
    | ok b => cases h
    | error f' => exact .error (Except.error.inj h)

theorem bind {r r' : Except Fault α} {k k' : α → Except Fault β} (h : SameButLine Same r r')
    (hk : ∀ {a b}, Same a b → SameButLine Same' (k a) (k' b)) :
    SameButLine Same' (r >>= k) (r' >>= k') := by
  cases h with
  | ok h => exact hk h
  | error h => exact .error h

theorem of_sameButLines {k : Tree → Except Fault α}
    (hk : ∀ tree, k tree.withoutLines = mapBoth Fault.withoutLine id (k tree)) {tree tree' : Tree}
    (h : tree.SameButLines tree') : SameButLine Eq (k tree) (k tree') := by
  have hsame : k tree.withoutLines = k tree'.withoutLines := congrArg k h
  rw [hk, hk] at hsame
  exact of_mapBoth hsame

end SameButLine

theorem TokenStream.mapLines_eq {s s' : TokenStream} {l l' : TokenList}
    (h : s.toTokenList = .ok l) (h' : s'.toTokenList = .ok l')
    (hsame : l.tokens.map (·.token) = l'.tokens.map (·.token)) :
    s.mapLines (fun _ => 0) = s'.mapLines fun _ => 0 := by
  have hlines (ts : List Located) : ts.map (·.mapLine fun _ => 0) =
      (ts.map (·.token)).map fun t => ⟨t, 0⟩ := by
    rw [List.map_map]
    rfl
  rw [tokens_of_toTokenList h, tokens_of_toTokenList h'] at hsame
  obtain ⟨tokens, ending⟩ := s
  obtain ⟨tokens', ending'⟩ := s'
  simp only [TokenStream.mapLines, hlines, hsame, TokenStream.mk.injEq, true_and]
  cases ending with
  | fault f => cases h
  | finish line =>
    cases ending' with
    | fault f => cases h'
    | finish line' => rfl

theorem mapError_mapBoth (r : Except SourceFault Tree) :
    mapBoth Fault.withoutLine Tree.withoutLines (r.mapError .source) =
      (mapBoth (·.mapLine fun _ => 0) Tree.withoutLines r).mapError .source := by
  cases r <;> rfl

/-- Texts with the same tokens, however they are laid out, have the same trees up to lines and the
same symbols, outcomes and values, or they have the same faults up to the line. -/
theorem sameButLine_of_same_tokens {source source' : String} {l l' : TokenList}
    (h : (TokenStream.ofString source).toTokenList = .ok l)
    (h' : (TokenStream.ofString source').toTokenList = .ok l')
    (hsame : l.tokens.map (·.token) = l'.tokens.map (·.token)) :
    SameButLine Tree.SameButLines (Program.parse source) (Program.parse source') ∧
    SameButLine Tree.SameButLines (Expression.parse source) (Expression.parse source') ∧
    SameButLine Eq (Program.check source) (Program.check source') ∧
    SameButLine Eq (Program.interpret source) (Program.interpret source') ∧
    SameButLine Eq (Program.run source) (Program.run source') ∧
    SameButLine Eq (Expression.evaluate source) (Expression.evaluate source') := by
  have hlines := TokenStream.mapLines_eq h h' hsame
  have hprogram : SameButLine Tree.SameButLines (Program.parse source) (Program.parse source') := by
    refine .of_mapBoth ?_
    rw [Program.parse, Program.parse, mapError_mapBoth, mapError_mapBoth]
    have hread := congrArg TokenStream.program hlines
    rw [TokenStream.program_mapLines, TokenStream.program_mapLines] at hread
    exact congrArg (Except.mapError Fault.source) hread
  have hexpression :
      SameButLine Tree.SameButLines (Expression.parse source) (Expression.parse source') := by
    refine .of_mapBoth ?_
    rw [Expression.parse, Expression.parse, mapError_mapBoth, mapError_mapBoth]
    have hread := congrArg TokenStream.expression hlines
    rw [TokenStream.expression_mapLines, TokenStream.expression_mapLines] at hread
    exact congrArg (Except.mapError Fault.source) hread
  have hcheck : SameButLine Eq (Program.check source) (Program.check source') :=
    hprogram.bind fun htree => .of_sameButLines (Tree.symbols_mapLines _) htree
  have hinterpret : SameButLine Eq (Program.interpret source) (Program.interpret source') :=
    hprogram.bind fun htree => .of_sameButLines (Tree.outcome_mapLines rfl) htree
  refine ⟨hprogram, hexpression, hcheck, hinterpret, ?_, ?_⟩
  · rw [Program.run_eq, Program.run_eq]
    exact hcheck.bind fun _ => hinterpret
  · exact hexpression.bind fun htree => .of_sameButLines (Tree.value_mapLines rfl) htree

/-- The same fault on the first line and, behind a comment and with another spelling of the number, on
the second one. -/
theorem sameButLine_of_same_tokens_negated_half :
    Program.interpret "main x = -0.5" = .error (.evaluation (.signOnFloat .minus 0.5 1)) ∧
    Program.interpret "main # half\n x = - 0.50" =
      .error (.evaluation (.signOnFloat .minus 0.5 2)) ∧
    SameButLine Eq (Program.interpret "main x = -0.5")
      (Program.interpret "main # half\n x = - 0.50") := by
  let tokens (line : Nat) (x : Float) : List Located :=
    [⟨.keyword .main, 1⟩, ⟨.name "x", line⟩, ⟨.mark .equals, line⟩, ⟨.mark .minus, line⟩,
      ⟨.float x, line⟩]
  have hspelling : Float.ofScientific 50 true 2 = 0.5 := by decide +kernel
  have h : (TokenStream.ofString "main x = -0.5").toTokenList = .ok ⟨tokens 1 0.5, 1⟩ :=
    TokenStream.toTokenList_ofString (by rfl)
  have h' : (TokenStream.ofString "main # half\n x = - 0.50").toTokenList = .ok ⟨tokens 2 0.5, 2⟩ := by
    rw [← hspelling]
    exact TokenStream.toTokenList_ofString (by rfl)
  have hderives (line : Nat) : Derivation.Program (tokens line 0.5)
      (.assignment "x" (.signed .minus (.literal (.float 0.5) line) line) line) :=
    .mk (.assignment (.one (.one (.minus .float))))
  have hfirst := Program.interpret_of_parse (Program.parse_eq_ok_iff.mpr ⟨_, h, hderives 1⟩)
  have hsecond := Program.interpret_of_parse (Program.parse_eq_ok_iff.mpr ⟨_, h', hderives 2⟩)
  obtain ⟨-, -, -, hinterpret, -⟩ := sameButLine_of_same_tokens h h' rfl
  exact ⟨hfirst, hsecond, hinterpret⟩

end Primer
