import Mathlib.Tactic

/-! # Boolean Expressions

    Expressions over leaves with `!`, `&&` and `||`, as they are written: `!`
    binds tighter than `&&`, which binds tighter than `||`, both associate to
    the left, and parentheses are kept.

    * `parse`: reads a list of tokens, one token at a time.
    * `parse_tokens`: an expression is read back from its tokens.
    * `parse_conjoin`: what becomes of an expression when a factor is written in
      front of it. Only its first alternative is conjoined with the factor. -/

open Option List

namespace BoolExpr

/-- A Boolean expression. -/
inductive Expr (α : Type u) where
  | leaf (a : α)
  | and (left right : Expr α)
  | or (left right : Expr α)
  | not (e : Expr α)
  | paren (e : Expr α)
  deriving DecidableEq, Repr

variable {α : Type u} {β : Type v}

/-- The value of an expression, from those of its leaves. -/
def Expr.value (v : α → Bool) : Expr α → Bool
  | .leaf a => v a
  | .and l r => l.value v && r.value v
  | .or l r => l.value v || r.value v
  | .not e => !e.value v
  | .paren e => e.value v

/-- The expression over other leaves. -/
def Expr.map (f : α → β) : Expr α → Expr β
  | .leaf a => .leaf (f a)
  | .and l r => .and (l.map f) (r.map f)
  | .or l r => .or (l.map f) (r.map f)
  | .not e => .not (e.map f)
  | .paren e => .paren (e.map f)

/-- All leaves are in `P`. -/
def Expr.All (P : α → Prop) : Expr α → Prop
  | .leaf a => P a
  | .and l r => l.All P ∧ r.All P
  | .or l r => l.All P ∧ r.All P
  | .not e => e.All P
  | .paren e => e.All P

variable {e : Expr α}

theorem Expr.All.imp {P Q : α → Prop} (hPQ : ∀ a, P a → Q a) (h : e.All P) : e.All Q := by
  induction e with
  | leaf a => exact hPQ a h
  | and l r ihl ihr => exact ⟨ihl h.1, ihr h.2⟩
  | or l r ihl ihr => exact ⟨ihl h.1, ihr h.2⟩
  | not e ih => exact ih h
  | paren e ih => exact ih h

theorem Expr.All.and {P Q : α → Prop} (hP : e.All P) (hQ : e.All Q) : e.All fun a => P a ∧ Q a := by
  induction e with
  | leaf a => exact ⟨hP, hQ⟩
  | and l r ihl ihr | or l r ihl ihr => exact ⟨ihl hP.1 hQ.1, ihr hP.2 hQ.2⟩
  | not e ih => exact ih hP hQ
  | paren e ih => exact ih hP hQ

variable {f : α → β}

theorem Expr.all_map {P : β → Prop} : (e.map f).All P ↔ e.All fun a => P (f a) := by
  induction e with
  | leaf a => exact .rfl
  | and l r ihl ihr => exact and_congr ihl ihr
  | or l r ihl ihr => exact and_congr ihl ihr
  | not e ih => exact ih
  | paren e ih => exact ih

theorem Expr.map_eq_self {f : α → α} (h : e.All fun a => f a = a) : e.map f = e := by
  induction e with
  | leaf a => exact congrArg Expr.leaf h
  | and l r ihl ihr | or l r ihl ihr => rw [Expr.map, ihl h.1, ihr h.2]
  | not e ih => rw [Expr.map, ih h]
  | paren e ih => rw [Expr.map, ih h]

open BoolExpr.Expr

theorem Expr.value_congr {v w : α → Bool} (h : e.All fun a => v a = w a) :
    e.value v = e.value w := by
  induction e with
  | leaf a => exact h
  | and l r ihl ihr | or l r ihl ihr => simp only [value, ihl h.1, ihr h.2]
  | not e ih => simp only [value, ih h]
  | paren e ih => exact ih h

theorem Expr.value_map (f : α → β) (v : β → Bool) (e : Expr α) :
    (e.map f).value v = e.value fun a => v (f a) := by
  induction e with
  | leaf a => rfl
  | and l r ihl ihr | or l r ihl ihr => simp only [Expr.map, value, ihl, ihr]
  | not e ih => simp only [Expr.map, value, ih]
  | paren e ih => exact ih

/-- `n` negations. -/
def negate : Nat → Expr α → Expr α
  | 0, e => e
  | n + 1, e => .not (negate n e)

/-- A conjunction, when there is something to conjoin with. -/
def joinAnd : Option (Expr α) → Expr α → Expr α
  | none, e => e
  | some l, e => .and l e

/-- A disjunction, when there is something to disjoin with. -/
def joinOr : Option (Expr α) → Expr α → Expr α
  | none, e => e
  | some l, e => .or l e

/-! ## Reading tokens -/

inductive Token (α : Type u) where
  | leaf (a : α)
  | and
  | or
  | not
  | opening
  | closing
  deriving DecidableEq, Repr

/-- What was read between two parentheses: the alternatives that are complete,
    the factors of the one under way, and the negations in front of an operand. -/
structure Level (α : Type u) where
  ors : Option (Expr α)
  ands : Option (Expr α)
  nots : Nat
  deriving DecidableEq, Repr

/-- Nothing was read. -/
def Level.start : Level α where
  ors := none
  ands := none
  nots := 0

/-- What was read, with its last operand. -/
def Level.total (l : Level α) (e : Expr α) : Expr α :=
  joinOr l.ors (joinAnd l.ands e)

/-- The states: an operand or an operator is expected next.  `outer` are the
    levels around the present one, the innermost first. -/
inductive State (α : Type u) where
  | operand (level : Level α) (outer : List (Level α))
  | operator (e : Expr α) (level : Level α) (outer : List (Level α))
  deriving DecidableEq, Repr

/-- The state after an operand. -/
def State.after (e : Expr α) (level : Level α) (outer : List (Level α)) : State α :=
  .operator (negate level.nots e) { level with nots := 0 } outer

/-- One token. -/
def step : State α → Token α → Option (State α)
  | .operand level outer, .leaf a => some (.after (.leaf a) level outer)
  | .operand level outer, .not => some (.operand { level with nots := level.nots + 1 } outer)
  | .operand level outer, .opening => some (.operand .start (level :: outer))
  | .operator e level outer, .and =>
    some (.operand { level with ands := some (joinAnd level.ands e) } outer)
  | .operator e level outer, .or => some (.operand ⟨some (level.total e), none, 0⟩ outer)
  | .operator e level (level' :: outer), .closing =>
    some (.after (.paren (level.total e)) level' outer)
  | _, _ => none

/-- The expression, when it is complete. -/
def finish : State α → Option (Expr α)
  | .operator e level [] => some (level.total e)
  | _ => none

def State.init : State α :=
  .operand .start []

open State

/-- The expression that a list of tokens writes. -/
def parse (tokens : List (Token α)) : Option (Expr α) :=
  (tokens.foldlM step init).bind finish

/-! ## Writing tokens -/

def Expr.tokens : Expr α → List (Token α)
  | .leaf a => [.leaf a]
  | .and l r => l.tokens ++ .and :: r.tokens
  | .or l r => l.tokens ++ .or :: r.tokens
  | .not e => .not :: e.tokens
  | .paren e => .opening :: e.tokens ++ [.closing]

/-- How tight the outermost operator of an expression binds. -/
def Expr.rank : Expr α → Nat
  | .leaf _ => 2
  | .not _ => 2
  | .paren _ => 2
  | .and _ _ => 1
  | .or _ _ => 0

/-- The expression has parentheses where the precedence of the operators asks
    for them. -/
def Expr.Grouped : Expr α → Prop
  | .leaf _ => True
  | .not e => e.rank = 2 ∧ e.Grouped
  | .paren e => e.Grouped
  | .and l r => (1 ≤ l.rank ∧ l.Grouped) ∧ r.rank = 2 ∧ r.Grouped
  | .or l r => l.Grouped ∧ 1 ≤ r.rank ∧ r.Grouped

theorem rank_map : (e.map f).rank = e.rank := by
  cases e <;> rfl

theorem grouped_map : (e.map f).Grouped ↔ e.Grouped := by
  induction e with
  | leaf a => exact .rfl
  | not e ih => simp only [Expr.map, Expr.Grouped, rank_map, ih]
  | paren e ih => exact ih
  | and l r ihl ihr | or l r ihl ihr => simp only [Expr.map, Expr.Grouped, rank_map, ihl, ihr]

theorem negate_not (n : Nat) (e : Expr α) : negate n (.not e) = negate (n + 1) e := by
  induction n with
  | zero => rfl
  | succ n ih => exact congrArg Expr.not ih

/-- Read as an operand. -/
def ReadsFactor (e : Expr α) : Prop :=
  ∀ level outer, e.tokens.foldlM step (.operand level outer) = some (.after e level outer)

/-- Read as an alternative. -/
def ReadsTerm (e : Expr α) : Prop :=
  ∀ ors outer, ∃ r ands, e.tokens.foldlM step (.operand ⟨ors, none, 0⟩ outer) =
    some (.operator r ⟨ors, ands, 0⟩ outer) ∧ joinAnd ands r = e

/-- Read as all that stands between two parentheses. -/
def ReadsSum (e : Expr α) : Prop :=
  ∀ outer, ∃ r level, e.tokens.foldlM step (.operand .start outer) =
    some (.operator r level outer) ∧ level.total r = e

theorem ReadsFactor.term (h : ReadsFactor e) : ReadsTerm e :=
  fun ors outer => ⟨e, none, h ⟨ors, none, 0⟩ outer, rfl⟩

theorem ReadsTerm.sum (h : ReadsTerm e) : ReadsSum e := by
  intro outer
  obtain ⟨r, ands, hrun, hjoin⟩ := h none outer
  exact ⟨r, _, hrun, hjoin⟩

theorem ReadsFactor.not (h : ReadsFactor e) : ReadsFactor (.not e) := by
  intro level outer
  simp only [tokens, foldlM_cons, step, bind_eq_bind, bind_some]
  rw [h]
  simp only [State.after, negate_not]

theorem ReadsSum.paren (h : ReadsSum e) : ReadsFactor (.paren e) := by
  intro level outer
  obtain ⟨r, inner, hrun, htotal⟩ := h (level :: outer)
  simp only [tokens, cons_append, foldlM_cons, foldlM_append, step,
    bind_eq_bind, bind_some, hrun, foldlM_nil, htotal]
  rfl

theorem ReadsTerm.and {l r : Expr α} (hl : ReadsTerm l) (hr : ReadsFactor r) :
    ReadsTerm (.and l r) := by
  intro ors outer
  obtain ⟨r', ands, hrun, hjoin⟩ := hl ors outer
  refine ⟨r, some l, ?_, rfl⟩
  simp only [tokens, foldlM_append, hrun, foldlM_cons, step, bind_eq_bind, bind_some, hjoin]
  exact hr _ _

theorem ReadsSum.or {l r : Expr α} (hl : ReadsSum l) (hr : ReadsTerm r) : ReadsSum (.or l r) := by
  intro outer
  obtain ⟨r₁, level, hrun, htotal⟩ := hl outer
  obtain ⟨r₂, ands, hrun₂, hjoin⟩ := hr (some l) outer
  refine ⟨r₂, ⟨some l, ands, 0⟩, ?_, ?_⟩
  · simp only [tokens, foldlM_append, hrun, foldlM_cons, step, bind_eq_bind, bind_some, htotal]
    exact hrun₂
  · simp only [Level.total, joinOr, hjoin]

theorem reads (e : Expr α) (h : e.Grouped) :
    (e.rank = 2 → ReadsFactor e) ∧ (1 ≤ e.rank → ReadsTerm e) ∧ ReadsSum e := by
  -- what binds tighter can stand where something that binds less tight can
  have hfactor : ∀ {e : Expr α}, ReadsFactor e →
      (e.rank = 2 → ReadsFactor e) ∧ (1 ≤ e.rank → ReadsTerm e) ∧ ReadsSum e :=
    fun h => ⟨fun _ => h, fun _ => h.term, h.term.sum⟩
  induction e with
  | leaf a => exact hfactor fun _ _ => rfl
  | not e ih => exact hfactor ((ih h.2).1 h.1).not
  | paren e ih => exact hfactor (ih h).2.2.paren
  | and l r ihl ihr =>
    have hterm := ((ihl h.1.2).2.1 h.1.1).and ((ihr h.2.2).1 h.2.1)
    exact ⟨fun hrank => absurd hrank (by simp [rank]), fun _ => hterm, hterm.sum⟩
  | or l r ihl ihr =>
    have hsum := (ihl h.1).2.2.or ((ihr h.2.2).2.1 h.2.1)
    exact ⟨fun hrank => absurd hrank (by simp [rank]),
      fun hrank => absurd hrank (by simp [rank]), hsum⟩

/-- **Reading back**: an expression is what its tokens write. -/
theorem parse_tokens (h : e.Grouped) : parse e.tokens = some e := by
  obtain ⟨r, level, hrun, htotal⟩ := (reads e h).2.2 []
  unfold parse init
  rw [hrun]
  exact congrArg some htotal

/-! ## What is read is grouped -/

/-- The parts of a level are grouped. -/
structure Level.Ok (l : Level α) : Prop where
  ors : ∀ e, l.ors = some e → e.Grouped
  ands : ∀ e, l.ands = some e → 1 ≤ e.rank ∧ e.Grouped

/-- The parts of a state are grouped. -/
def State.Ok : State α → Prop
  | .operand level outer => ∀ l ∈ level :: outer, l.Ok
  | .operator e level outer => (e.rank = 2 ∧ e.Grouped) ∧ ∀ l ∈ level :: outer, l.Ok

theorem grouped_negate (hrank : e.rank = 2) (h : e.Grouped) (n : Nat) :
    (negate n e).rank = 2 ∧ (negate n e).Grouped := by
  induction n with
  | zero => exact ⟨hrank, h⟩
  | succ n ih => exact ⟨rfl, ih⟩

open Level

theorem Level.start_ok : (start : Level α).Ok where
  ors := fun e he => by cases he
  ands := fun e he => by cases he

variable {l : Level α}

theorem Level.Ok.joinAnd (hl : l.Ok) (hrank : e.rank = 2)
    (he : e.Grouped) : 1 ≤ (BoolExpr.joinAnd l.ands e).rank ∧ (BoolExpr.joinAnd l.ands e).Grouped := by
  cases hands : l.ands with
  | none => exact ⟨by simp [BoolExpr.joinAnd, hrank], he⟩
  | some a => exact ⟨le_refl 1, hl.ands a hands, hrank, he⟩

theorem Level.Ok.total (hl : l.Ok) (hrank : e.rank = 2) (he : e.Grouped) : (l.total e).Grouped := by
  have hjoin := hl.joinAnd hrank he
  unfold Level.total
  cases hors : l.ors with
  | none => exact hjoin.2
  | some o => exact ⟨hl.ors o hors, hjoin⟩

theorem State.after_ok {level : Level α} {outer : List (Level α)}
    (hrank : e.rank = 2) (he : e.Grouped) (h : ∀ l ∈ level :: outer, l.Ok) :
    (after e level outer).Ok := by
  obtain ⟨hlevel, houter⟩ := forall_mem_cons.mp h
  exact ⟨grouped_negate hrank he _, forall_mem_cons.mpr ⟨⟨hlevel.ors, hlevel.ands⟩, houter⟩⟩

theorem step_ok {s s' : State α} {t : Token α} (hs : s.Ok) (h : step s t = some s') : s'.Ok := by
  cases s with
  | operand level outer =>
    cases t with
    | leaf a =>
      cases h
      exact after_ok rfl trivial hs
    | not =>
      cases h
      obtain ⟨hlevel, houter⟩ := forall_mem_cons.mp hs
      exact forall_mem_cons.mpr ⟨⟨hlevel.ors, hlevel.ands⟩, houter⟩
    | opening =>
      cases h
      exact forall_mem_cons.mpr ⟨start_ok, hs⟩
    | and => cases h
    | or => cases h
    | closing => cases h
  | operator e level outer =>
    obtain ⟨⟨hrank, he⟩, hlevels⟩ := hs
    obtain ⟨hlevel, houter⟩ := forall_mem_cons.mp hlevels
    cases t with
    | and =>
      cases h
      refine forall_mem_cons.mpr ⟨⟨hlevel.ors, fun a ha => ?_⟩, houter⟩
      cases ha
      exact hlevel.joinAnd hrank he
    | or =>
      cases h
      refine forall_mem_cons.mpr ⟨⟨fun o ho => ?_, fun a ha => by cases ha⟩, houter⟩
      cases ho
      exact hlevel.total hrank he
    | closing =>
      cases outer with
      | nil => cases h
      | cons level' outer =>
        cases h
        exact after_ok rfl (hlevel.total hrank he) houter
    | leaf a => cases h
    | not => cases h
    | opening => cases h

theorem foldlM_ok {s s' : State α} {toks : List (Token α)} (hs : s.Ok)
    (h : toks.foldlM step s = some s') : s'.Ok := by
  induction toks generalizing s with
  | nil =>
    cases h
    exact hs
  | cons t toks ih =>
    obtain ⟨s₁, hstep, hrest⟩ := bind_eq_some_iff.mp h
    exact ih (step_ok hs hstep) hrest

theorem State.init_ok : (init : State α).Ok := forall_mem_singleton.mpr start_ok

theorem grouped_of_parse {toks : List (Token α)} (h : parse toks = some e) : e.Grouped := by
  obtain ⟨s, hrun, hfinish⟩ := bind_eq_some_iff.mp h
  have hok := foldlM_ok init_ok hrun
  cases s with
  | operand level outer => cases hfinish
  | operator r level outer =>
    cases outer with
    | nil =>
      cases hfinish
      exact (hok.2 level (.head _)).total hok.1.1 hok.1.2
    | cons level' outer => cases hfinish

/-! ## Chains -/

/-- A conjunction of several expressions. -/
def Expr.conj (e : Expr α) (es : List (Expr α)) : Expr α :=
  es.foldl .and e

/-- A disjunction of several expressions. -/
def Expr.disj (e : Expr α) (es : List (Expr α)) : Expr α :=
  es.foldl .or e

variable {es : List (Expr α)} {P : α → Prop}

theorem Expr.all_conj : (e.conj es).All P ↔ ∀ x ∈ e :: es, x.All P := by
  induction es generalizing e with
  | nil => simp [conj]
  | cons x es ih =>
    have hcons : e.conj (x :: es) = (Expr.and e x).conj es := rfl
    simp [hcons, ih, Expr.All, and_assoc]

theorem Expr.all_disj : (e.disj es).All P ↔ ∀ x ∈ e :: es, x.All P := by
  induction es generalizing e with
  | nil => simp [disj]
  | cons x es ih =>
    have hcons : e.disj (x :: es) = (Expr.or e x).disj es := rfl
    simp [hcons, ih, Expr.All, and_assoc]

theorem Expr.value_disj (v : α → Bool) (e : Expr α) (es : List (Expr α)) :
    (e.disj es).value v = (e :: es).any (value v) := by
  induction es generalizing e with
  | nil => simp [disj]
  | cons x es ih =>
    have hcons : e.disj (x :: es) = (Expr.or e x).disj es := rfl
    simp [hcons, ih, value, Bool.or_assoc]

theorem Expr.grouped_conj (hrank : 1 ≤ e.rank)
    (he : e.Grouped) (hes : ∀ x ∈ es, x.rank = 2 ∧ x.Grouped) :
    1 ≤ (e.conj es).rank ∧ (e.conj es).Grouped := by
  induction es generalizing e with
  | nil => exact ⟨hrank, he⟩
  | cons x es ih =>
    obtain ⟨hx, hes⟩ := forall_mem_cons.mp hes
    exact ih (le_refl 1) ⟨⟨hrank, he⟩, hx⟩ hes

theorem Expr.grouped_disj (he : e.Grouped)
    (hes : ∀ x ∈ es, 1 ≤ x.rank ∧ x.Grouped) : (e.disj es).Grouped := by
  induction es generalizing e with
  | nil => exact he
  | cons x es ih =>
    obtain ⟨hx, hes⟩ := forall_mem_cons.mp hes
    exact ih ⟨he, hx⟩ hes

/-! ## A factor in front -/

/-- The expression that is written when `h &&` is written in front of `e`. -/
def conjoin (h : Expr α) : Expr α → Expr α
  | .or l r => .or (conjoin h l) r
  | .and l r => .and (conjoin h l) r
  | e => .and h e

/-- `h &&` in front of a level. -/
def Level.conjoin (h : Expr α) (l : Level α) : Level α :=
  match l.ors with
  | some o => { l with ors := some (BoolExpr.conjoin h o) }
  | none => { l with ands := some (l.ands.elim h (BoolExpr.conjoin h)) }

/-- `h &&` in front of the outermost of the levels. -/
def conjoinOuter (h : Expr α) : List (Level α) → List (Level α)
  | [] => []
  | [l] => [l.conjoin h]
  | l :: l' :: ls => l :: conjoinOuter h (l' :: ls)

/-- `h &&` in front of what was read. -/
def State.conjoin (h : Expr α) : State α → State α
  | .operand level [] => .operand (level.conjoin h) []
  | .operand level (l :: ls) => .operand level (conjoinOuter h (l :: ls))
  | .operator e level [] => .operator e (level.conjoin h) []
  | .operator e level (l :: ls) => .operator e level (conjoinOuter h (l :: ls))

theorem all_conjoin {h e : Expr α} : (conjoin h e).All P ↔ h.All P ∧ e.All P := by
  induction e with
  | or l r ihl _ | and l r ihl _ => simp only [conjoin, Expr.All, ihl, and_assoc]
  | leaf a => exact .rfl
  | not e => exact .rfl
  | paren e => exact .rfl

variable (h : Expr α)

theorem conjoin_factor (hrank : e.rank = 2) : conjoin h e = .and h e := by
  cases e with
  | and l r => cases hrank
  | or l r => cases hrank
  | leaf a => rfl
  | not e => rfl
  | paren e => rfl

@[simp] theorem Level.conjoin_nots (l : Level α) : (l.conjoin h).nots = l.nots := by
  unfold conjoin
  cases l.ors <;> rfl

theorem Level.conjoin_nots_comm (l : Level α) (n : Nat) :
    { l.conjoin h with nots := n } = ({ l with nots := n } : Level α).conjoin h := by
  unfold conjoin
  cases l.ors <;> rfl

theorem Level.joinAnd_conjoin (hrank : e.rank = 2) :
    { l.conjoin h with ands := some (joinAnd (l.conjoin h).ands e) } =
      ({ l with ands := some (joinAnd l.ands e) } : Level α).conjoin h := by
  obtain ⟨ors, ands, nots⟩ := l
  cases ors with
  | some o => rfl
  | none =>
    cases ands with
    | some a => rfl
    | none => simp [conjoin, joinAnd, conjoin_factor h hrank]

theorem Level.total_conjoin (hrank : e.rank = 2) :
    (l.conjoin h).total e = BoolExpr.conjoin h (l.total e) := by
  obtain ⟨ors, ands, nots⟩ := l
  cases ors with
  | some o => rfl
  | none =>
    cases ands with
    | some a => rfl
    | none => exact (conjoin_factor h hrank).symm

variable {s : State α}

/-- Reading goes on as if nothing stood in front. -/
theorem step_conjoin (hs : s.Ok) (t : Token α) :
    step (s.conjoin h) t = (step s t).map (State.conjoin h) := by
  cases s with
  | operand level outer =>
    cases outer with
    | nil =>
      cases t with
      | leaf a =>
        simp [State.conjoin, step, State.after, conjoin_nots_comm]
      | not => simp [State.conjoin, step, conjoin_nots_comm]
      | opening => rfl
      | and => rfl
      | or => rfl
      | closing => rfl
    | cons l ls => cases t <;> rfl
  | operator e level outer =>
    have hrank : e.rank = 2 := hs.1.1
    cases outer with
    | nil =>
      cases t with
      | and => exact congrArg (fun l => some (State.operand l [])) (joinAnd_conjoin h hrank)
      | or =>
        simp [State.conjoin, step, total_conjoin h hrank]
        rfl
      | closing => rfl
      | leaf a => rfl
      | not => rfl
      | opening => rfl
    | cons l ls =>
      cases t with
      | closing =>
        cases ls with
        | nil =>
          simp [State.conjoin, conjoinOuter, step, State.after, conjoin_nots_comm]
        | cons l' ls => rfl
      | and => rfl
      | or => rfl
      | leaf a => rfl
      | not => rfl
      | opening => rfl

theorem foldlM_conjoin (hs : s.Ok) (toks : List (Token α)) :
    toks.foldlM step (s.conjoin h) = (toks.foldlM step s).map (State.conjoin h) := by
  induction toks generalizing s with
  | nil => rfl
  | cons t toks ih =>
    simp only [foldlM_cons, step_conjoin h hs, bind_eq_bind]
    cases hstep : step s t with
    | none => rfl
    | some s' => exact ih (step_ok hs hstep)

theorem finish_conjoin (hs : s.Ok) : finish (s.conjoin h) = (finish s).map (conjoin h) := by
  cases s with
  | operand level outer => cases outer <;> rfl
  | operator e level outer =>
    cases outer with
    | nil => exact congrArg some (total_conjoin h hs.1.1)
    | cons l ls => cases ls <;> rfl

/-- **A factor in front** of what is read next. -/
theorem parse_conjoin {h : Expr α} (hrank : h.rank = 2) (hh : h.Grouped) (toks : List (Token α)) :
    parse (h.tokens ++ .and :: toks) = (parse toks).map (conjoin h) := by
  have hread := (reads h hh).1 hrank .start []
  -- after `h &&`, the state is the initial one with `h &&` in front
  have hfront : (h.tokens ++ .and :: toks).foldlM step State.init =
      toks.foldlM step (.conjoin h .init) := by
    rw [foldlM_append, State.init, hread]
    rfl
  unfold parse
  rw [hfront, foldlM_conjoin h State.init_ok]
  cases hrun : toks.foldlM step (.init : State α) with
  | none => rfl
  | some s => exact finish_conjoin h (foldlM_ok State.init_ok hrun)

/-- The first alternative of an expression. -/
def Expr.first : Expr α → Expr α
  | .or l _ => l.first
  | e => e

/-- The other alternatives. -/
def Expr.others : Expr α → List (Expr α)
  | .or l r => l.others ++ [r]
  | _ => []

theorem Expr.others_of_rank (h : 1 ≤ e.rank) : e.others = [] := by
  cases e with
  | or l r => exact absurd h (by simp [rank])
  | leaf a => rfl
  | and l r => rfl
  | not e => rfl
  | paren e => rfl

theorem value_conjoin_term (v : α → Bool) (h : Expr α) (hrank : 1 ≤ e.rank)
    (he : e.Grouped) : (conjoin h e).value v = (h.value v && e.value v) := by
  induction e with
  | and l r ihl _ =>
    simp only [conjoin, value, ihl he.1.1 he.1.2, Bool.and_assoc]
  | or l r => exact absurd hrank (by simp [rank])
  | leaf a => rfl
  | not e => rfl
  | paren e => rfl

/-- **Alternatives**: a factor in front of an expression restricts the first one
    only. -/
theorem value_conjoin (v : α → Bool) (h : Expr α) (he : e.Grouped) :
    (conjoin h e).value v =
      ((h.value v && e.first.value v) || e.others.any fun o => o.value v) := by
  induction e with
  | or l r ihl _ =>
    simp only [conjoin, value, ihl he.1, first, others, any_append,
      any_cons, any_nil, Bool.or_false, Bool.or_assoc]
  | and l r =>
    rw [value_conjoin_term v h (le_refl 1) he]
    simp [first, others]
  | leaf a | not e | paren e => simp [conjoin, value, first, others]

end BoolExpr
