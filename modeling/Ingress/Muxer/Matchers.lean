import Ingress.Rules.Tree

/-! # Matchers

    The HTTP and the TCP muxer (`pkg/muxer`) turn the tree of a rule into a tree
    of matchers, which are then asked about each request or connection.

    A matcher is a closure, and calling it may change what it has captured: it is
    modelled by a value of a type `M` and the function that calls it.  The two
    muxers share everything but their matchers and the texts of their errors.

    * `addRule`, `MatchersTree.matchOn`: the code.
    * `Compiled`: the expression of a rule, each of its leaves with its matcher.
    * `matchOn_compiled`: the tree matches exactly when the expression is true. -/

open BoolExpr Outcome Ingress.Rules

namespace Ingress.Muxer

/-- A matcher function: one that was built for a matcher, or the negation of one. -/
inductive MatcherFunc (M : Type) where
  | built (m : M)
  | not (f : MatcherFunc M)

inductive MatchersTree (M : Type) where
  | matcher (f : MatcherFunc M)
  | node (op : Op) (left right : MatchersTree M)

/-- What a muxer does of its own: how it calls a matcher, and how it wraps the
    errors of `addRule`. -/
structure Kind (M Req : Type) where
  call : M → Req → Bool × M
  adding : String → String → String
  checking : String → String → String

/-- `matcherBuilderFuncs`: the functions that build matchers, by name. -/
abbrev MatcherFuncs (M : Type) := List (String × (List String → Except String M))

/-- The parser of the rules for these matchers. -/
def MatcherFuncs.parser {M : Type} (funcs : MatcherFuncs M) : Rules.Parser where
  matchers := funcs.map Prod.fst

variable {M Req : Type}

/-! ## The code -/

/-- A call of a matcher function. -/
def MatcherFunc.run (kind : Kind M Req) : MatcherFunc M → Req → Bool × MatcherFunc M
  | .built m, req => ((kind.call m req).1, .built (kind.call m req).2)
  | .not f, req => (!(f.run kind req).1, .not (f.run kind req).2)

/-- `match`.  The right subtree is only asked when the left one leaves it open. -/
def MatchersTree.matchOn (kind : Kind M Req) : MatchersTree M → Req → Bool × MatchersTree M
  | .matcher f, req => ((f.run kind req).1, .matcher (f.run kind req).2)
  | .node .or l r, req =>
    let (b, l') := l.matchOn kind req
    if b then (true, .node .or l' r)
    else ((r.matchOn kind req).1, .node .or l' (r.matchOn kind req).2)
  | .node .and l r, req =>
    let (b, l') := l.matchOn kind req
    if b then ((r.matchOn kind req).1, .node .and l' (r.matchOn kind req).2)
    else (false, .node .and l' r)

/-- The matcher of a leaf. -/
def buildMatcher (funcs : MatcherFuncs M) (name : String) (value : List String) : Except String M :=
  match funcs.lookup name with
  | none => .error "invalid memory address or nil pointer dereference"
  | some build => build value

def addRule (kind : Kind M Req) (funcs : MatcherFuncs M) :
    Rules.Tree → Except String (MatchersTree M)
  | .node op l r => do
    let left ← (addRule kind funcs l).mapError (kind.adding op.name)
    let right ← addRule kind funcs r
    pure (.node op left right)
  | .matcher name not value => do
    (checkRule name value).mapError (kind.checking name)
    let m ← (buildMatcher funcs name value).mapError (kind.adding name)
    pure (.matcher (if not then .not (.built m) else .built m))

/-- From a rule to its matchers: `Parse`, the tree, `addRule`. -/
def compile (kind : Kind M Req) (funcs : MatcherFuncs M) (rule : String) :
    Except String (MatchersTree M) := do
  let buildTree ← funcs.parser.parse rule
  addRule kind funcs (buildTree ())

/-- The tree after the requests it was asked about. -/
def MatchersTree.after (kind : Kind M Req) (t : MatchersTree M) (reqs : List Req) :
    MatchersTree M :=
  reqs.foldl (fun t req => (t.matchOn kind req).2) t

/-! ## Expressions with matchers -/

/-- A leaf of a rule with its matcher. -/
abbrev Leaf (M : Type) := Call × M

/-- The matchers of an expression, or of its negation. -/
def matchersOf : Bool → Expr (Leaf M) → MatchersTree M
  | negated, .leaf x => .matcher (if negated then .not (.built x.2) else .built x.2)
  | negated, .and l r =>
    .node (if negated then .or else .and) (matchersOf negated l) (matchersOf negated r)
  | negated, .or l r =>
    .node (if negated then .and else .or) (matchersOf negated l) (matchersOf negated r)
  | negated, .not e => matchersOf (!negated) e
  | negated, .paren e => matchersOf negated e

/-- The matcher was built for the call, and may have been called since. -/
inductive BuiltFor (kind : Kind M Req) (funcs : MatcherFuncs M) (c : Call) : M → Prop where
  | built {name : String} {m : M} (hname : funcs.parser.function c.name = some name)
      (hbuild : buildMatcher funcs name c.args = .ok m) : BuiltFor kind funcs c m
  | called {m : M} (before : BuiltFor kind funcs c m) (req : Req) :
      BuiltFor kind funcs c (kind.call m req).2

/-- `d` is the expression `e`, each leaf with a matcher that was built for it. -/
structure Compiled (kind : Kind M Req) (funcs : MatcherFuncs M) (e : Expr Call)
    (d : Expr (Leaf M)) : Prop where
  calls : d.map Prod.fst = e
  matchers : d.All fun x => BuiltFor kind funcs x.1 x.2

/-- What the matcher of a leaf says about a request. -/
def Leaf.answer (kind : Kind M Req) (req : Req) (x : Leaf M) : Bool :=
  (kind.call x.2 req).1

open MatchersTree Leaf Expr

/-- Asking about a request is evaluating the expression; what it leaves is the
    expression again, with some of the matchers called once. -/
theorem matchOn_matchersOf (kind : Kind M Req) (req : Req) (neg : Bool) (d : Expr (Leaf M)) :
    ∃ d' : Expr (Leaf M), d'.map Prod.fst = d.map Prod.fst ∧
      (∀ P : Leaf M → Prop, (∀ x, P x → P (x.1, (kind.call x.2 req).2)) → d.All P → d'.All P) ∧
      (matchersOf neg d).matchOn kind req =
        (neg ^^ d.value (answer kind req), matchersOf neg d') := by
  induction d generalizing neg with
  | leaf x =>
    refine ⟨.leaf (x.1, (kind.call x.2 req).2), rfl, fun P hP hx => hP x hx, ?_⟩
    cases neg <;> simp [matchersOf, matchOn, MatcherFunc.run, value, answer]
  | not d ih =>
    obtain ⟨d', hmap, hall, hrun⟩ := ih (!neg)
    refine ⟨.not d', congrArg Expr.not hmap, hall, ?_⟩
    simp only [matchersOf, hrun, value]
    cases neg <;> simp
  | paren d ih =>
    obtain ⟨d', hmap, hall, hrun⟩ := ih neg
    exact ⟨.paren d', congrArg paren hmap, hall, hrun⟩
  | and l r ihl ihr =>
    obtain ⟨l', hmapl, halll, hrunl⟩ := ihl neg
    obtain ⟨r', hmapr, hallr, hrunr⟩ := ihr neg
    -- the right operand is asked exactly when the left one is true
    cases hl : l.value (answer kind req) with
    | true =>
      refine ⟨.and l' r', by simp [map, hmapl, hmapr],
        fun P hP h => ⟨halll P hP h.1, hallr P hP h.2⟩, ?_⟩
      cases neg <;> simp [matchersOf, matchOn, hrunl, hrunr, value, hl]
    | false =>
      refine ⟨.and l' r, by simp [map, hmapl], fun P hP h => ⟨halll P hP h.1, h.2⟩, ?_⟩
      cases neg <;> simp [matchersOf, matchOn, hrunl, value, hl]
  | or l r ihl ihr =>
    obtain ⟨l', hmapl, halll, hrunl⟩ := ihl neg
    obtain ⟨r', hmapr, hallr, hrunr⟩ := ihr neg
    cases hl : l.value (answer kind req) with
    | false =>
      refine ⟨.or l' r', by simp [map, hmapl, hmapr],
        fun P hP h => ⟨halll P hP h.1, hallr P hP h.2⟩, ?_⟩
      cases neg <;> simp [matchersOf, matchOn, hrunl, hrunr, value, hl]
    | true =>
      refine ⟨.or l' r, by simp [map, hmapl], fun P hP h => ⟨halll P hP h.1, h.2⟩, ?_⟩
      cases neg <;> simp [matchersOf, matchOn, hrunl, value, hl]

variable {e : Expr Call}

theorem Compiled.matchOn {kind : Kind M Req} {funcs : MatcherFuncs M}
    {d : Expr (Leaf M)} (h : Compiled kind funcs e d) (req : Req) :
    ∃ d', Compiled kind funcs e d' ∧ (matchersOf false d).matchOn kind req =
      (d.value (answer kind req), matchersOf false d') := by
  obtain ⟨d', hmap, hall, hrun⟩ := matchOn_matchersOf kind req false d
  refine ⟨d', ⟨hmap.trans h.calls, ?_⟩, ?_⟩
  · exact hall _ (fun x hx => .called hx req) h.matchers
  · rw [hrun, Bool.false_xor]

/-! ## What the muxers build -/

variable {kind : Kind M Req} {funcs : MatcherFuncs M}

open Parser

/-- The parser accepts expressions over calls of registered matchers. -/
theorem evaluate_ok_iff {p : Rules.Parser} :
    (∃ builder, p.evaluate e = .ok builder) ↔
      e.All fun c => ∃ name, p.function c.name = some name := by
  induction e with
  | leaf c =>
    rw [evaluate, Expr.All]
    cases p.function c.name <;> simp
  | and l r ihl ihr | or l r ihl ihr =>
    rw [evaluate, Expr.All, ← ihl, ← ihr]
    cases p.evaluate l <;> cases p.evaluate r <;> simp [bind, Except.bind, pure, Except.pure]
  | not e ih =>
    rw [evaluate, Expr.All, ← ih]
    cases p.evaluate e <;> simp [bind, Except.bind, pure, Except.pure]
  | paren e ih => exact ih

variable {t : MatchersTree M}

theorem addRule_node {op : Op} {l r : Rules.Tree} (h : addRule kind funcs (.node op l r) = .ok t) :
    ∃ tl tr, addRule kind funcs l = .ok tl ∧ addRule kind funcs r = .ok tr ∧
      t = .node op tl tr := by
  obtain ⟨tl, hl, h⟩ := ok_of_bind h
  obtain ⟨tr, hr, h⟩ := ok_of_bind h
  cases h
  exact ⟨tl, tr, ok_of_exceptMapError hl, hr, rfl⟩

theorem addRule_treeOf {neg : Bool}
    (hknown : e.All fun c => ∃ name, funcs.parser.function c.name = some name)
    (h : addRule kind funcs (treeOf funcs.parser neg e) = .ok t) :
    ∃ d, Compiled kind funcs e d ∧ t = matchersOf neg d := by
  induction e generalizing neg t with
  | leaf c =>
    obtain ⟨name, hname⟩ := hknown
    obtain ⟨_, _, h⟩ := ok_of_bind h
    obtain ⟨m, hm, h⟩ := ok_of_bind h
    cases h
    have hbuild := ok_of_exceptMapError hm
    rw [hname] at hbuild
    exact ⟨.leaf (c, m), ⟨rfl, .built hname hbuild⟩, rfl⟩
  | and l r ihl ihr =>
    obtain ⟨tl, tr, hl, hr, rfl⟩ := addRule_node h
    obtain ⟨dl, hdl, rfl⟩ := ihl hknown.1 hl
    obtain ⟨dr, hdr, rfl⟩ := ihr hknown.2 hr
    exact ⟨.and dl dr, ⟨by simp [map, hdl.calls, hdr.calls], hdl.matchers, hdr.matchers⟩, rfl⟩
  | or l r ihl ihr =>
    obtain ⟨tl, tr, hl, hr, rfl⟩ := addRule_node h
    obtain ⟨dl, hdl, rfl⟩ := ihl hknown.1 hl
    obtain ⟨dr, hdr, rfl⟩ := ihr hknown.2 hr
    exact ⟨.or dl dr, ⟨by simp [map, hdl.calls, hdr.calls], hdl.matchers, hdr.matchers⟩, rfl⟩
  | not e ih =>
    obtain ⟨d, hd, rfl⟩ := ih hknown h
    exact ⟨.not d, ⟨congrArg Expr.not hd.calls, hd.matchers⟩, rfl⟩
  | paren e ih =>
    obtain ⟨d, hd, rfl⟩ := ih hknown h
    exact ⟨.paren d, ⟨congrArg paren hd.calls, hd.matchers⟩, rfl⟩

variable {rule : String}

theorem compile_read (h : compile kind funcs rule = .ok t) :
    ∃ e, read rule = some e ∧ (e.All fun c => ∃ name, funcs.parser.function c.name = some name) ∧
      addRule kind funcs (treeOf funcs.parser false e) = .ok t := by
  obtain ⟨builder, hparse, hadd⟩ := ok_of_bind h
  unfold Parser.parse at hparse
  cases hread : read rule with
  | none =>
    rw [hread] at hparse
    cases hparse
  | some e =>
    rw [hread] at hparse
    rw [evaluate_run hparse] at hadd
    exact ⟨e, rfl, evaluate_ok_iff.mp ⟨_, hparse⟩, hadd⟩

/-- A rule that was accepted is an expression, and its matchers are those of the
    expression. -/
theorem compile_compiled (h : compile kind funcs rule = .ok t) :
    ∃ e d, read rule = some e ∧ Compiled kind funcs e d ∧ t = matchersOf false d := by
  obtain ⟨e, hread, hknown, hadd⟩ := compile_read h
  obtain ⟨d, hd, rfl⟩ := addRule_treeOf hknown hadd
  exact ⟨e, d, hread, hd, rfl⟩

/-- A call of a registered matcher, with arguments from which a matcher can be built. -/
def Buildable (funcs : MatcherFuncs M) (c : Call) : Prop :=
  ∃ name m, funcs.parser.function c.name = some name ∧ checkRule name c.args = .ok () ∧
    buildMatcher funcs name c.args = .ok m

theorem addRule_ok (neg : Bool) (h : e.All (Buildable funcs)) :
    ∃ t, addRule kind funcs (treeOf funcs.parser neg e) = .ok t := by
  induction e generalizing neg with
  | leaf c =>
    obtain ⟨name, m, hname, hcheck, hbuild⟩ := h
    exact ⟨_, by rw [treeOf, hname, addRule, Option.getD_some, hcheck, hbuild]; rfl⟩
  | and l r ihl ihr | or l r ihl ihr =>
    obtain ⟨tl, hl⟩ := ihl neg h.1
    obtain ⟨tr, hr⟩ := ihr neg h.2
    exact ⟨_, by rw [treeOf, addRule, hl, hr]; rfl⟩
  | not e ih => exact ih (!neg) h
  | paren e ih => exact ih neg h

theorem buildable_of_addRule {neg : Bool}
    (hknown : e.All fun c => ∃ name, funcs.parser.function c.name = some name)
    (h : addRule kind funcs (treeOf funcs.parser neg e) = .ok t) : e.All (Buildable funcs) := by
  induction e generalizing neg t with
  | leaf c =>
    obtain ⟨name, hname⟩ := hknown
    obtain ⟨_, hcheck, h⟩ := ok_of_bind h
    obtain ⟨m, hm, _⟩ := ok_of_bind h
    have hcheck := ok_of_exceptMapError hcheck
    have hbuild := ok_of_exceptMapError hm
    rw [hname] at hcheck hbuild
    exact ⟨name, m, hname, hcheck, hbuild⟩
  | and l r ihl ihr | or l r ihl ihr =>
    obtain ⟨tl, tr, hl, hr, _⟩ := addRule_node h
    exact ⟨ihl hknown.1 hl, ihr hknown.2 hr⟩
  | not e ih => exact ih hknown h
  | paren e ih => exact ih hknown h

/-- **Rules that are accepted** are those that can be read and whose matchers can be
    built. -/
theorem compile_ok_iff : (∃ t, compile kind funcs rule = .ok t) ↔
    ∃ e, read rule = some e ∧ e.All (Buildable funcs) := by
  constructor
  · rintro ⟨t, h⟩
    obtain ⟨e, hread, hknown, hadd⟩ := compile_read h
    exact ⟨e, hread, buildable_of_addRule hknown hadd⟩
  · rintro ⟨e, hread, hbuildable⟩
    obtain ⟨builder, heval⟩ := evaluate_ok_iff.mpr
      (hbuildable.imp fun _ ⟨name, _, hname, _⟩ => ⟨name, hname⟩)
    obtain ⟨t, hadd⟩ := addRule_ok false hbuildable
    refine ⟨t, ?_⟩
    simp only [compile, Parser.parse, hread, heval]
    exact (congrArg (addRule kind funcs) (evaluate_run heval)).trans hadd

/-- **A run of requests** keeps the expression of the rule. -/
theorem Compiled.after {d : Expr (Leaf M)} (h : Compiled kind funcs e d) (reqs : List Req) :
    ∃ d', Compiled kind funcs e d' ∧ (matchersOf false d).after kind reqs = matchersOf false d' := by
  induction reqs generalizing d with
  | nil => exact ⟨d, h, rfl⟩
  | cons req reqs ih =>
    obtain ⟨d₁, hd₁, hrun⟩ := h.matchOn req
    obtain ⟨d', hd', hafter⟩ := ih hd₁
    refine ⟨d', hd', ?_⟩
    rw [← hafter]
    simp only [MatchersTree.after, List.foldl_cons, hrun]

/-- **Matching**: whatever it was asked before, the tree of a rule matches a request
    exactly when the expression of the rule is true of it. -/
theorem matchOn_compiled (h : compile kind funcs rule = .ok t) (reqs : List Req) :
    ∃ e d, read rule = some e ∧ Compiled kind funcs e d ∧
      ∀ req, ((t.after kind reqs).matchOn kind req).1 = d.value (answer kind req) := by
  obtain ⟨e, d₀, hread, hd₀, rfl⟩ := compile_compiled h
  obtain ⟨d, hd, hafter⟩ := hd₀.after reqs
  refine ⟨e, d, hread, hd, fun req => ?_⟩
  obtain ⟨d', _, hrun⟩ := hd.matchOn req
  rw [hafter, hrun]

end Ingress.Muxer
