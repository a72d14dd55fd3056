import Mathlib.Logic.Basic

/-! # Labelled Transition Systems

    A system is a set of initial states and a labelled step relation.  Its
    reachable states are those of finite runs, so an invariant is proved from
    two obligations (`System.invariant`).

    A map of states that takes every step to a step, or to no change, carries
    reachable states to reachable states (`System.Reachable.map`): this is how a
    model of code refines a more abstract one.

    `System.restrict` keeps only the steps that meet a condition on the state
    they are taken from: its reachable states are those of the runs whose steps
    all meet the condition.

    `System.observe` keeps a record of what can be seen of the steps of a run.

    `System.Run` is a run with its labels.  A process whose steps lower a rank that
    no other step raises gets to its goal within as many of its own steps
    (`System.Run.within`). -/

namespace LTS

/-- A labelled transition system. -/
structure System (State : Type u) (Label : Type v) where
  /-- The states a run may start in. -/
  init : State → Prop
  /-- `step s l s'`: the step labelled `l` leads from `s` to `s'`. -/
  step : State → Label → State → Prop

namespace System

variable {State : Type u} {Label : Type v}

/-- The states of finite runs. -/
inductive Reachable (sys : System State Label) : State → Prop where
  | init : ∀ {s}, sys.init s → Reachable sys s
  | step : ∀ {s s'} l, Reachable sys s → sys.step s l s' → Reachable sys s'

/-- The system whose steps must meet `ok` in the state they are taken from. -/
def restrict (sys : System State Label) (ok : State → Label → Prop) : System State Label where
  init := sys.init
  step := fun s l s' => ok s l ∧ sys.step s l s'

variable {sys : System State Label}

/-- **Invariant rule**: what holds initially and is kept by every step holds
    in every reachable state. -/
theorem invariant (inv : State → Prop) (hinit : ∀ s, sys.init s → inv s)
    (hstep : ∀ s l s', inv s → sys.step s l s' → inv s')
    {s : State} (h : sys.Reachable s) : inv s := by
  induction h with
  | init hs => exact hinit _ hs
  | step l _ hst ih => exact hstep _ l _ ih hst

/-- Runs whose steps all meet a condition are runs. -/
theorem Reachable.of_restrict {ok : State → Label → Prop} {s : State}
    (h : (sys.restrict ok).Reachable s) : sys.Reachable s := by
  induction h with
  | init hs => exact .init hs
  | step l _ hst ih => exact .step l ih hst.2

theorem Reachable.restrict_mono {ok ok' : State → Label → Prop} (himp : ∀ s l, ok s l → ok' s l)
    {s : State} (h : (sys.restrict ok).Reachable s) : (sys.restrict ok').Reachable s := by
  induction h with
  | init hs => exact .init hs
  | step l _ hst ih => exact .step l ih ⟨himp _ _ hst.1, hst.2⟩

/-- **Refinement rule**: a map that takes initial states to initial states and
    every step to a step or to no change takes runs to runs. -/
theorem Reachable.map {State' : Type u'} {Label' : Type v'} {sys' : System State' Label'}
    (view : State → State') (hinit : ∀ s, sys.init s → sys'.init (view s))
    (hstep : ∀ s l s', sys.Reachable s → sys.step s l s' →
      view s' = view s ∨ ∃ l', sys'.step (view s) l' (view s'))
    {s : State} (h : sys.Reachable s) : sys'.Reachable (view s) := by
  induction h with
  | init hs => exact .init (hinit _ hs)
  | step l hs hst ih =>
    rcases hstep _ l _ hs hst with hsame | ⟨l', hst'⟩
    · rw [hsame]
      exact ih
    · exact .step l' ih hst'

/-- The system with a record of what is seen of its steps. -/
def observe (sys : System State Label) {Event : Type w} (seen : State → Label → List Event) :
    System (State × List Event) Label where
  init := fun s => sys.init s.1 ∧ s.2 = []
  step := fun s l s' => sys.step s.1 l s'.1 ∧ s'.2 = s.2 ++ seen s.1 l

/-- Observed runs are runs. -/
theorem Reachable.of_observe {Event : Type w} {seen : State → Label → List Event}
    {s : State × List Event} (h : (sys.observe seen).Reachable s) : sys.Reachable s.1 := by
  refine Reachable.map Prod.fst ?_ ?_ h
  · intro s hs
    exact hs.1
  · intro s l s' _ hst
    exact .inr ⟨l, hst.1⟩

/-! ## Runs and progress -/

/-- `Run sys s ls s'`: a run from `s` to `s'` with the labels `ls`. -/
inductive Run (sys : System State Label) : State → List Label → State → Prop where
  | nil : ∀ s, Run sys s [] s
  | cons : ∀ {s s' s'' ls} l, sys.step s l s' → Run sys s' ls s'' → Run sys s (l :: ls) s''

theorem Reachable.of_run {s s' : State} {ls : List Label} (hs : sys.Reachable s)
    (h : sys.Run s ls s') : sys.Reachable s' := by
  induction h with
  | nil => exact hs
  | cons l hst _ ih => exact ih (.step l hs hst)

/-- **Progress rule**: when every step of the labels `own` gets to the goal or lowers
    the rank, and no other step raises it, the goal is met in every run with more
    steps of `own` than the rank. -/
theorem Run.within (inv goal : State → Prop) (own : Label → Bool) (rank : State → Nat)
    (hinv : ∀ s l s', inv s → sys.step s l s' → inv s')
    (hgoal : ∀ s l s', goal s → sys.step s l s' → goal s')
    (hown : ∀ s l s', inv s → own l = true → sys.step s l s' → goal s' ∨ rank s' < rank s)
    (hother : ∀ s l s', inv s → own l = false → sys.step s l s' → goal s' ∨ rank s' ≤ rank s)
    {s s' : State} {ls : List Label} (hs : inv s) (h : sys.Run s ls s')
    (hcount : rank s < ls.countP own) : goal s' := by
  have hstays : ∀ {s s' ls}, goal s → sys.Run s ls s' → goal s' := by
    intro s s' ls hg hrun
    induction hrun with
    | nil => exact hg
    | cons l hst _ ih => exact ih (hgoal _ l _ hg hst)
  induction h with
  | nil => simp at hcount
  | cons l hst hrun ih =>
    have hs' := hinv _ l _ hs hst
    cases hl : own l with
    | true =>
      rw [List.countP_cons_of_pos hl] at hcount
      rcases hown _ l _ hs hl hst with hg | hlt
      · exact hstays hg hrun
      · exact ih hs' (by omega)
    | false =>
      rw [List.countP_cons_of_neg (by simp [hl])] at hcount
      rcases hother _ l _ hs hl hst with hg | hle
      · exact hstays hg hrun
      · exact ih hs' (by omega)

end System

end LTS
