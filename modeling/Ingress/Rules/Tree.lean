import Ingress.Framework.Outcome
import Ingress.Rules.Syntax

/-! # Rule Trees

    `pkg/rules`: the parser of rules builds a tree of matchers.  Operators are
    inner nodes; a negation is pushed down to the leaves, where it becomes a flag.

    * `Parser.evaluate`: what the parser makes of an expression, operand by operand.
    * `evaluate_run`: the tree that comes out of it. -/

open BoolExpr Outcome

namespace Ingress.Rules

/-- The operators of inner nodes. -/
inductive Op where
  | and
  | or
  deriving DecidableEq, Repr

/-- The constants `and` and `or`. -/
def Op.name : Op → String
  | .and => "and"
  | .or => "or"

/-- `Tree`: a matcher with its flag `Not` and its values, or an operator with its
    two subtrees. -/
inductive Tree where
  | matcher (name : String) (not : Bool) (value : List String)
  | node (op : Op) (ruleLeft ruleRight : Tree)
  deriving DecidableEq, Repr

abbrev TreeBuilder := Unit → Tree

def andFunc (left right : TreeBuilder) : TreeBuilder := fun _ => .node .and (left ()) (right ())

def orFunc (left right : TreeBuilder) : TreeBuilder := fun _ => .node .or (left ()) (right ())

def invert : Tree → Tree
  | .node .or l r => .node .and (invert l) (invert r)
  | .node .and l r => .node .or (invert l) (invert r)
  | .matcher name not value => .matcher name (!not) value

def notFunc (elem : TreeBuilder) : TreeBuilder := fun _ => invert (elem ())

/-- `ParseMatchers`, with `strings.ToLower`. -/
def Tree.parseMatchers (toLower : String → String) (matchers : List String) : Tree → List String
  | .node _ l r => l.parseMatchers toLower matchers ++ r.parseMatchers toLower matchers
  | .matcher name _ value => if name ∈ matchers then value.map toLower else []

def checkRule (name : String) (value : List String) : Except String Unit :=
  if value = [] then .error ("no args for matcher " ++ name)
  else if "" ∈ value then
    .error ("empty args for matcher " ++ name ++ ", [" ++ " ".intercalate value ++ "]")
  else .ok ()

/-! ## The parser -/

/-- The names under which `NewParser` registers a matcher. -/
def spellings (matcherName : String) : List String :=
  [matcherName, matcherName.toLower, matcherName.toUpper, matcherName.toLower.capitalize]

/-- `NewParser`: a parser for the given matchers. -/
structure Parser where
  matchers : List String
  deriving DecidableEq, Repr

/-- `parserFuncs[name]`: a later matcher replaces an earlier one of the same name. -/
def Parser.function (p : Parser) (name : String) : Option String :=
  p.matchers.reverse.find? fun matcherName => name ∈ spellings matcherName

/-- The function that is registered for a matcher. -/
def matcherFunc (matcherName : String) (value : List String) : TreeBuilder :=
  fun _ => .matcher matcherName false value

/-- What the parser makes of an expression, from its operands up. -/
def Parser.evaluate (p : Parser) : Expr Call → Except String TreeBuilder
  | .leaf c =>
    match p.function c.name with
    | none => .error ("unsupported function: " ++ c.name)
    | some matcherName => .ok (matcherFunc matcherName c.args)
  | .and l r => do
    let left ← p.evaluate l
    let right ← p.evaluate r
    pure (andFunc left right)
  | .or l r => do
    let left ← p.evaluate l
    let right ← p.evaluate r
    pure (orFunc left right)
  | .not e => do
    let elem ← p.evaluate e
    pure (notFunc elem)
  | .paren e => p.evaluate e

def Parser.parse (p : Parser) (rule : String) : Except String TreeBuilder :=
  match read rule with
  | none => .error "syntax error"
  | some e => p.evaluate e

/-! ## The tree of an expression -/

/-- The tree of an expression, or of its negation. -/
def treeOf (p : Parser) : Bool → Expr Call → Tree
  | negated, .leaf c => .matcher ((p.function c.name).getD c.name) negated c.args
  | negated, .and l r => .node (if negated then .or else .and) (treeOf p negated l) (treeOf p negated r)
  | negated, .or l r => .node (if negated then .and else .or) (treeOf p negated l) (treeOf p negated r)
  | negated, .not e => treeOf p (!negated) e
  | negated, .paren e => treeOf p negated e

theorem invert_treeOf (p : Parser) (e : Expr Call) (neg : Bool) :
    invert (treeOf p neg e) = treeOf p (!neg) e := by
  induction e generalizing neg with
  | leaf c => rfl
  | and l r ihl ihr | or l r ihl ihr => cases neg <;> simp [treeOf, invert, ihl, ihr]
  | not e ih => exact ih (!neg)
  | paren e ih => exact ih neg

/-- **The tree**: what the parser builds is the tree of the expression, with the
    negations at the leaves. -/
theorem evaluate_run {p : Parser} {e : Expr Call} {builder : TreeBuilder}
    (h : p.evaluate e = .ok builder) : builder () = treeOf p false e := by
  induction e generalizing builder with
  | leaf c =>
    unfold Parser.evaluate at h
    cases hf : p.function c.name with
    | none =>
      rw [hf] at h
      cases h
    | some matcherName =>
      rw [hf] at h
      cases h
      simp [matcherFunc, treeOf, hf]
  | and l r ihl ihr =>
    obtain ⟨left, hl, h⟩ := ok_of_bind h
    obtain ⟨right, hr, h⟩ := ok_of_bind h
    cases h
    simp [andFunc, treeOf, ihl hl, ihr hr]
  | or l r ihl ihr =>
    obtain ⟨left, hl, h⟩ := ok_of_bind h
    obtain ⟨right, hr, h⟩ := ok_of_bind h
    cases h
    simp [orFunc, treeOf, ihl hl, ihr hr]
  | not e ih =>
    obtain ⟨elem, he, h⟩ := ok_of_bind h
    cases h
    simp [notFunc, treeOf, ih he, invert_treeOf]
  | paren e ih => exact ih h

end Ingress.Rules
