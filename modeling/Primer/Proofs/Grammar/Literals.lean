import Primer.Proofs.Grammar.Recognition
import Primer.Proofs.Lexing.Steps

/-! # The numbers and names of a tree

A tree holds the numbers and the names of its text and no others, in the order of the text. The
integers among them are those that can be written down, so none of them is negative.
-/
namespace Primer

mutual

/-- The numbers that are written in the tree, from left to right. -/
def Tree.literals : Tree → List Value
  | .literal value _ => [value]
  | .binary left _ right _ => left.literals ++ right.literals
  | .signed _ operand _ => operand.literals
  | .variable .. => []
  | .assignment _ value _ => value.literals
  | .declaration _ _ _ none _ => []
  | .declaration _ _ _ (some init) _ => init.literals
  | .procedure _ body _ => body.literals
  | .block children _ => literalsAll children
  | .empty => []

def literalsAll : List Tree → List Value
  | [] => []
  | tree :: others => tree.literals ++ literalsAll others

end

mutual

/-- The names that are written in the tree, from left to right. -/
def Tree.identifiers : Tree → List String
  | .literal .. => []
  | .binary left _ right _ => left.identifiers ++ right.identifiers
  | .signed _ operand _ => operand.identifiers
  | .variable name _ => [name]
  | .assignment name value _ => name :: value.identifiers
  | .declaration name _ _ none _ => [name]
  | .declaration name _ _ (some init) _ => name :: init.identifiers
  | .procedure name body _ => name :: body.identifiers
  | .block children _ => identifiersAll children
  | .empty => []

def identifiersAll : List Tree → List String
  | [] => []
  | tree :: others => tree.identifiers ++ identifiersAll others

end

def Token.literal? : Token → Option Value
  | .int n => some (.int n)
  | .float x => some (.float x)
  | _ => none

def Token.identifier? : Token → Option String
  | .name x => some x
  | _ => none

def Grammar.Tokens.literals (ts : Tokens) : List Value :=
  ts.filterMap (·.token.literal?)

def Grammar.Tokens.identifiers (ts : Tokens) : List String :=
  ts.filterMap (·.token.identifier?)

/-- A walk over trees that collects what the tokens of numbers and names give, and nothing else. -/
structure Collects {α : Type} (give : Token → Option α) (collect : Tree → List α)
    (collectAll : List Tree → List α) : Prop where
  mark : ∀ {m}, give (.mark m) = none
  keyword : ∀ {k}, give (.keyword k) = none
  type : ∀ {t}, give (.type t) = none
  int : ∀ {n line}, collect (.literal (.int n) line) = (give (.int n)).toList
  float : ∀ {x line}, collect (.literal (.float x) line) = (give (.float x)).toList
  name : ∀ {x line}, collect (.variable x line) = (give (.name x)).toList
  binary : ∀ {left op right line},
    collect (.binary left op right line) = collect left ++ collect right
  signed : ∀ {sign operand line}, collect (.signed sign operand line) = collect operand
  assignment : ∀ {x value line},
    collect (.assignment x value line) = (give (.name x)).toList ++ collect value
  declaration : ∀ {x typeName typeLine line},
    collect (.declaration x typeName typeLine none line) = (give (.name x)).toList
  initialized : ∀ {x typeName typeLine init line},
    collect (.declaration x typeName typeLine (some init) line) =
      (give (.name x)).toList ++ collect init
  procedure : ∀ {x body line},
    collect (.procedure x body line) = (give (.name x)).toList ++ collect body
  block : ∀ {trees line}, collect (.block trees line) = collectAll trees
  empty : collect .empty = []
  nil : collectAll [] = []
  cons : ∀ {tree others}, collectAll (tree :: others) = collect tree ++ collectAll others

theorem collects_literals : Collects Token.literal? Tree.literals literalsAll := by
  constructor <;> intros <;> rfl

theorem collects_identifiers : Collects Token.identifier? Tree.identifiers identifiersAll := by
  constructor <;> intros <;> rfl

namespace Collects
open Grammar Primer.Derivation

variable {α : Type} {give : Token → Option α} {collect : Tree → List α}
  {collectAll : List Tree → List α} (h : Collects give collect collectAll)

theorem filterMap_cons {t : Token} {line : Nat} {ts : Tokens} :
    List.filterMap (fun u : Located => give u.token) (⟨t, line⟩ :: ts) =
      (give t).toList ++ List.filterMap (fun u : Located => give u.token) ts := by
  rw [List.filterMap_cons]
  cases give t <;> rfl

theorem filterMap_singleton {t : Token} {line : Nat} :
    List.filterMap (fun u : Located => give u.token) [⟨t, line⟩] = (give t).toList := by
  rw [filterMap_cons, List.filterMap_nil, List.append_nil]

include h

theorem joins {level : Level} {t : Token} {op : BinaryOperator} (hop : Joins level t op) :
    give t = none := by
  cases hop <;> exact h.mark

theorem expressionRules :
    ExpressionRules fun ts tree => collect tree = ts.filterMap fun u => give u.token where
  int := h.int.trans filterMap_singleton.symm
  float := h.float.trans filterMap_singleton.symm
  name := h.name.trans filterMap_singleton.symm
  plus ih := by rw [h.signed, filterMap_cons, h.mark, ih]; rfl
  minus ih := by rw [h.signed, filterMap_cons, h.mark, ih]; rfl
  parens ih := by
    rw [filterMap_cons, List.filterMap_append, filterMap_singleton, h.mark, h.mark, ih]
    exact (List.append_nil _).symm
  binary ihl hop ihr := by
    rw [h.binary, ihl, ihr, List.filterMap_append, filterMap_cons, h.joins hop]
    rfl

theorem declaration_eq {ts : Tokens} {tree : Tree} (hts : Declaration ts tree) :
    collect tree = ts.filterMap fun u => give u.token := by
  obtain ⟨hinit⟩ := hts
  rw [filterMap_cons, filterMap_cons, filterMap_cons, h.mark, h.type]
  cases hinit with
  | missing =>
    rw [h.declaration]
    exact (List.append_nil _).symm
  | given hvalue =>
    rw [h.initialized, h.expressionRules.expression hvalue, filterMap_cons, h.mark]
    rfl

theorem separated_eq {separator : Mark} {P : Tokens → Tree → Prop}
    (hP : ∀ {ts tree}, P ts tree → collect tree = ts.filterMap fun u => give u.token)
    {ts : Tokens} {trees : List Tree} (hts : Separated (.mark separator) P ts trees) :
    collectAll trees = ts.filterMap fun u => give u.token := by
  induction hts with
  | one htree => rw [h.cons, hP htree, h.nil, List.append_nil]
  | more htree _ ih =>
    rw [h.cons, hP htree, ih, List.filterMap_append, filterMap_cons, h.mark]
    rfl

theorem statementRules :
    StatementRules fun ts tree => collect tree = ts.filterMap fun u => give u.token where
  empty := h.empty
  block hts := by
    rw [h.block, h.separated_eq id hts, filterMap_cons, List.filterMap_append, filterMap_singleton,
      h.mark, h.mark]
    exact (List.append_nil _).symm
  assignment hvalue := by
    rw [h.assignment, h.expressionRules.expression hvalue, filterMap_cons, filterMap_cons, h.mark]
    rfl
  declarations hts := by
    rw [h.block, h.separated_eq h.declaration_eq hts, filterMap_cons, h.keyword]
    rfl
  procedure ih := by
    rw [h.procedure, ih, filterMap_cons, filterMap_cons, h.keyword]
    rfl

theorem program_eq {ts : Tokens} {tree : Tree} (hts : Derivation.Program ts tree) :
    collect tree = ts.filterMap fun u => give u.token := by
  obtain ⟨hstatement⟩ := hts
  rw [h.statementRules.statement hstatement, filterMap_cons, h.keyword]
  rfl

end Collects

theorem TokenStream.int_of_mem_literals {source : String} {l : TokenList} {n : Int64}
    (hl : (ofString source).toTokenList = .ok l) (hn : .int n ∈ Grammar.Tokens.literals l.tokens) :
    ∃ k ≤ Lexeme.largestInteger, n = Int64.ofNat k := by
  rw [tokens_of_toTokenList hl] at hn
  obtain ⟨u, hmem, hliteral⟩ := List.mem_filterMap.mp hn
  have hint : u.token = .int n := by
    cases htoken : u.token <;> simp_all [Token.literal?]
  exact int_of_mem hmem hint

theorem Program.int_of_parse {source : String} {tree : Tree} {n : Int64}
    (h : Program.parse source = .ok tree) (hn : .int n ∈ tree.literals) :
    ∃ k ≤ Lexeme.largestInteger, n = Int64.ofNat k := by
  obtain ⟨l, hl, hderives⟩ := Program.parse_eq_ok_iff.mp h
  rw [collects_literals.program_eq hderives] at hn
  exact TokenStream.int_of_mem_literals hl hn

theorem Expression.int_of_parse {source : String} {tree : Tree} {n : Int64}
    (h : Expression.parse source = .ok tree) (hn : .int n ∈ tree.literals) :
    ∃ k ≤ Lexeme.largestInteger, n = Int64.ofNat k := by
  obtain ⟨l, hl, hderives⟩ := Expression.parse_eq_ok_iff.mp h
  rw [collects_literals.expressionRules.expression hderives] at hn
  exact TokenStream.int_of_mem_literals hl hn

end Primer
