import Ingress.Framework.System
import Mathlib.Tactic

/-! # Failover Status

    The status of a failover service (`pkg/server/service/loadbalancer/failover`):
    it is up while its main handler or its fallback handler is, and it tells its
    updaters about every change of the two.

    `SetHandlerStatus` and `SetFallbackHandlerStatus` hold different mutexes.
    `setters` interleaves any number of calls of the two, step by step, and
    `updaters_agree` says when the updaters end up with the status of the
    service. -/

open LTS Function Or

namespace Ingress

/-- The two services of a failover. -/
inductive Side where
  | handler
  | fallback
  deriving DecidableEq, Repr

/-- The statuses of a failover. -/
structure Failover where
  handlerStatus : Bool
  fallbackStatus : Bool
  deriving DecidableEq, Repr

namespace Failover

/-! ## The code -/

/-- A failover whose two handlers have been set. -/
def new : Failover where
  handlerStatus := true
  fallbackStatus := true

/-- The status of the service: down when both handlers are. -/
def up (f : Failover) : Bool :=
  f.handlerStatus || f.fallbackStatus

/-- The status that a setter compares and writes. -/
def status (f : Failover) : Side → Bool
  | .handler => f.handlerStatus
  | .fallback => f.fallbackStatus

/-- The status write of a setter. -/
def write (f : Failover) (side : Side) (up : Bool) : Failover :=
  match side with
  | .handler => { f with handlerStatus := up }
  | .fallback => { f with fallbackStatus := up }

/-- A setter run alone, with the value the updaters are called with. -/
def setStatus (side : Side) (f : Failover) (up : Bool) : Failover × Option Bool :=
  if up = f.status side then (f, none)
  else (f.write side up, some (f.write side up).up)

def setHandlerStatus : Failover → Bool → Failover × Option Bool :=
  setStatus .handler

def setFallbackHandlerStatus : Failover → Bool → Failover × Option Bool :=
  setStatus .fallback

/-! ## Interleavings -/

/-- A call of one of the two setters. -/
structure Call where
  side : Side
  up : Bool
  deriving DecidableEq, Repr

/-- Where a call stands, with `n` updaters: it waits for its mutex, has it,
    is in the loop before updater `i`, calls updater `i`, has returned. -/
inductive Pc (n : Nat) where
  | start
  | locked
  | loop (i : Nat)
  | call (i : Fin n) (up : Bool)
  | returned
  deriving DecidableEq, Repr

/-- The call holds its mutex. -/
def Pc.inside {n : Nat} : Pc n → Bool
  | .start | .returned => false
  | .locked | .loop _ | .call _ _ => true

/-- The failover, its concurrent calls, and the last value each updater got. -/
structure State (k n : Nat) where
  failover : Failover
  pc : Fin k → Pc n
  last : Fin n → Option Bool

/-- The steps of call `t`. -/
inductive Label (k : Nat) where
  | lock (t : Fin k)
  | write (t : Fin k)
  | read (t : Fin k)
  | update (t : Fin k)
  | unlock (t : Fin k)

variable {k n : Nat}

/-- The status comparison of a call, and its write. -/
def writeStatus (call : Call) (t : Fin k) (s : State k n) : State k n :=
  if call.up = s.failover.status call.side then
    { s with pc := Function.update s.pc t .returned } -- no need to propagate
  else
    { s with
      failover := s.failover.write call.side call.up
      pc := Function.update s.pc t (.loop 0) }

/-- The interleavings of `calls`, with `n` updaters. -/
def setters (calls : Fin k → Call) (n : Nat) : System (State k n) (Label k) where
  init := fun s => (∀ t, s.pc t = .start) ∧ ∀ u, s.last u = none
  step := fun s label s' =>
    match label with
    | .lock t =>
        s.pc t = .start ∧
        (∀ t', (calls t').side = (calls t).side → (s.pc t').inside = false) ∧
        s' = { s with pc := Function.update s.pc t .locked }
    | .write t => s.pc t = .locked ∧ s' = writeStatus (calls t) t s
    | .read t =>
        -- the status of the call's own side cannot change meanwhile
        ∃ i : Fin n, s.pc t = .loop i ∧
        s' = { s with pc := Function.update s.pc t (.call i s.failover.up) }
    | .update t =>
        ∃ i v, s.pc t = .call i v ∧
        s' = { s with
          pc := Function.update s.pc t (.loop (i + 1))
          last := Function.update s.last i (some v) }
    | .unlock t =>
        s.pc t = .loop n ∧ s' = { s with pc := Function.update s.pc t .returned }

/-- All calls have returned. -/
def AllReturned (s : State k n) : Prop :=
  ∀ t, s.pc t = .returned

/-- Every updater that was called was last called with the status of the service. -/
def Agreed (s : State k n) : Prop :=
  ∀ u v, s.last u = some v → v = s.failover.up

/-! ## What updaters are told -/

/-- The call still has to call updater `u`. -/
def Pc.Owes : Pc n → Fin n → Prop
  | .loop i, u => i ≤ u
  | .call i _, u => i ≤ u
  | _, _ => False

/-- Every updater knows the status of the service, or some call will still call it. -/
def Told (s : State k n) : Prop :=
  ∀ u, (∃ t, (s.pc t).Owes u) ∨ s.last u = none ∨ s.last u = some s.failover.up

/-- The condition on the steps of a run: an updater is called with the status
    of the service, or another call still has to call it. -/
def TellsStatus (s : State k n) : Label k → Prop
  | .update t => ∀ i v, s.pc t = .call i v →
      v = s.failover.up ∨ ∃ t', t' ≠ t ∧ (s.pc t').Owes i
  | _ => True

variable {calls : Fin k → Call} {s s' : State k n} {label : Label k} {t : Fin k}

/-- A call that goes from one point to another where it owes as much. -/
theorem told_update_pc (h : Told s) {pc' : Pc n}
    (hpc : ∀ u, (s.pc t).Owes u → pc'.Owes u) : Told { s with pc := update s.pc t pc' } := by
  intro u
  rcases h u with ⟨t', howes⟩ | hlast
  · refine inl ⟨t', ?_⟩
    by_cases ht : t' = t
    · subst ht
      simpa using hpc u howes
    · simpa [update_of_ne ht] using howes
  · exact inr hlast

/-- A status write makes the call owe every updater. -/
theorem told_write (h : Told s) (hpc : s.pc t = .locked) (call : Call) :
    Told (writeStatus call t s) := by
  unfold writeStatus
  split
  · exact told_update_pc h (fun u howes => by rw [hpc] at howes; exact howes.elim)
  · intro u
    exact inl ⟨t, by simp [Pc.Owes]⟩

/-- What an updater call does. -/
theorem told_update_iff (h : Told s) {i : Fin n} {v : Bool} (hpc : s.pc t = .call i v) :
    Told { s with
      pc := update s.pc t (.loop (i + 1))
      last := update s.last i (some v) } ↔
    v = s.failover.up ∨ ∃ t', t' ≠ t ∧ (s.pc t').Owes i := by
  constructor
  · intro htold
    rcases htold i with ⟨t', howes⟩ | hlast | hlast
    · -- the caller itself has gone past updater `i`
      have ht : t' ≠ t := by
        intro ht
        subst ht
        simp [Pc.Owes] at howes
      exact inr ⟨t', ht, by simpa [update_of_ne ht] using howes⟩
    · simp at hlast
    · exact inl (by simpa using hlast)
  · intro hok u
    by_cases hu : u = i
    · subst hu
      rcases hok with hv | ⟨t', ht, howes⟩
      · exact inr (inr (by simp [hv]))
      · exact inl ⟨t', by simpa [update_of_ne ht] using howes⟩
    · rcases h u with ⟨t', howes⟩ | hlast
      · refine inl ⟨t', ?_⟩
        by_cases ht : t' = t
        · -- the updaters after `i` are still owed by the caller
          subst ht
          have hle : i ≤ u := by simpa [hpc, Pc.Owes] using howes
          have hlt : i < u := lt_of_le_of_ne hle (fun h => hu h.symm)
          simpa [Pc.Owes] using hlt
        · simpa [update_of_ne ht] using howes
      · exact inr (by simpa [update_of_ne hu] using hlast)

/-- **One step** keeps the updaters told exactly when it meets the condition. -/
theorem told_step_iff (h : Told s) (hstep : (setters calls n).step s label s') :
    Told s' ↔ TellsStatus s label := by
  cases label with
  | lock t =>
    obtain ⟨hpc, _, rfl⟩ := hstep
    exact iff_of_true
      (told_update_pc h (fun u howes => by rw [hpc] at howes; exact howes.elim)) trivial
  | write t =>
    obtain ⟨hpc, rfl⟩ := hstep
    exact iff_of_true (told_write h hpc (calls t)) trivial
  | read t =>
    obtain ⟨i, hpc, rfl⟩ := hstep
    exact iff_of_true
      (told_update_pc h (fun u howes => by rw [hpc] at howes; exact howes)) trivial
  | update t =>
    obtain ⟨i, v, hpc, rfl⟩ := hstep
    rw [told_update_iff h hpc]
    simp [TellsStatus, hpc]
  | unlock t =>
    -- at the end of the loop nothing is owed
    obtain ⟨hpc, rfl⟩ := hstep
    refine iff_of_true (told_update_pc h (fun u howes => ?_)) trivial
    rw [hpc] at howes
    exact absurd u.isLt (Nat.not_lt.mpr howes)

theorem reachable_told (h : ((setters calls n).restrict TellsStatus).Reachable s) : Told s := by
  apply System.invariant Told ?_ ?_ h
  · intro s ⟨_, hlast⟩ u
    exact inr (inl (hlast u))
  · intro s label s' htold ⟨hok, hstep⟩
    exact (told_step_iff htold hstep).mpr hok

/-- Once nobody owes a call, the updaters agree with the service. -/
theorem Told.agreed (h : Told s) (hret : AllReturned s) : Agreed s := by
  intro u v hv
  rcases h u with ⟨t, howes⟩ | hlast | hlast
  · rw [hret t] at howes
    exact howes.elim
  · rw [hlast] at hv
    cases hv
  · rw [hlast] at hv
    exact (Option.some.inj hv).symm

/-- **Agreement**: in a run in which updaters are called with the status of the
    service, or will be called again, the updaters agree with the service once
    all calls have returned.  A step that violates the condition leaves an
    updater with another value and no call in flight that will correct it. -/
theorem updaters_agree (h : ((setters calls n).restrict TellsStatus).Reachable s) :
    (AllReturned s → Agreed s) ∧
      ∀ label s', (setters calls n).step s label s' → (Told s' ↔ TellsStatus s label) :=
  ⟨(reachable_told h).agreed, fun _ _ hstep => told_step_iff (reachable_told h) hstep⟩

/-- Both handlers of a failover go down, each by a call of its own. -/
def bothDown : Fin 2 → Call
  | 0 => ⟨.handler, false⟩
  | 1 => ⟨.fallback, false⟩

/-- The calls have not started; there is one updater. -/
def beforeBothDown : State 2 1 where
  failover := new
  pc := fun _ => .start
  last := fun _ => none

/-- One call after the other, the updater learns that the service is down. -/
theorem bothDown_in_turn :
    ∃ s, ((setters bothDown 1).restrict TellsStatus).Reachable s ∧ AllReturned s ∧
      s.failover.up = false ∧ s.last 0 = some false ∧ Agreed s := by
  let sys := (setters bothDown 1).restrict TellsStatus
  have h₀ : sys.Reachable beforeBothDown := .init ⟨fun _ => rfl, fun _ => rfl⟩
  have h₁ : sys.Reachable _ := .step (.lock 0) h₀ ⟨trivial, rfl, by decide, rfl⟩
  have h₂ : sys.Reachable _ := .step (.write 0) h₁ ⟨trivial, rfl, rfl⟩
  have h₃ : sys.Reachable _ := .step (.read 0) h₂ ⟨trivial, 0, rfl, rfl⟩
  have h₄ : sys.Reachable _ := .step (.update 0) h₃
    ⟨by intro i v hpc; cases hpc; exact inl rfl, 0, true, rfl, rfl⟩
  have h₅ : sys.Reachable _ := .step (.unlock 0) h₄ ⟨trivial, rfl, rfl⟩
  have h₆ : sys.Reachable _ := .step (.lock 1) h₅ ⟨trivial, rfl, by decide, rfl⟩
  have h₇ : sys.Reachable _ := .step (.write 1) h₆ ⟨trivial, rfl, rfl⟩
  have h₈ : sys.Reachable _ := .step (.read 1) h₇ ⟨trivial, 0, rfl, rfl⟩
  have h₉ : sys.Reachable _ := .step (.update 1) h₈
    ⟨by intro i v hpc; cases hpc; exact inl rfl, 0, false, rfl, rfl⟩
  have h₁₀ : sys.Reachable _ := .step (.unlock 1) h₉ ⟨trivial, rfl, rfl⟩
  obtain ⟨s, hreach, hret, hdown, hlast⟩ : ∃ s, sys.Reachable s ∧ AllReturned s ∧
      s.failover.up = false ∧ s.last 0 = some false := by
    refine ⟨_, h₁₀, ?_, rfl, rfl⟩
    intro t
    match t with
    | 0 => rfl
    | 1 => rfl
  exact ⟨s, hreach, hret, hdown, hlast, (updaters_agree hreach).1 hret⟩

/-- The first call reads that the fallback is up, the second call writes that it
    is down and calls the updater, and the first call comes last with its old
    value: the updater takes a service for up that is down. -/
theorem bothDown_crossing :
    ∃ s, (setters bothDown 1).Reachable s ∧ AllReturned s ∧
      s.failover.up = false ∧ s.last 0 = some true ∧ ¬ Agreed s := by
  let sys := setters bothDown 1
  have h₀ : sys.Reachable beforeBothDown := .init ⟨fun _ => rfl, fun _ => rfl⟩
  have h₁ : sys.Reachable _ := .step (.lock 0) h₀ ⟨rfl, by decide, rfl⟩
  have h₂ : sys.Reachable _ := .step (.write 0) h₁ ⟨rfl, rfl⟩
  have h₃ : sys.Reachable _ := .step (.read 0) h₂ ⟨0, rfl, rfl⟩
  have h₄ : sys.Reachable _ := .step (.lock 1) h₃ ⟨rfl, by decide, rfl⟩
  have h₅ : sys.Reachable _ := .step (.write 1) h₄ ⟨rfl, rfl⟩
  have h₆ : sys.Reachable _ := .step (.read 1) h₅ ⟨0, rfl, rfl⟩
  have h₇ : sys.Reachable _ := .step (.update 1) h₆ ⟨0, false, rfl, rfl⟩
  have h₈ : sys.Reachable _ := .step (.unlock 1) h₇ ⟨rfl, rfl⟩
  have h₉ : sys.Reachable _ := .step (.update 0) h₈ ⟨0, true, rfl, rfl⟩
  have h₁₀ : sys.Reachable _ := .step (.unlock 0) h₉ ⟨rfl, rfl⟩
  refine ⟨_, h₁₀, ?_, rfl, rfl, ?_⟩
  · intro t
    match t with
    | 0 => rfl
    | 1 => rfl
  · intro hagreed
    cases hagreed 0 true rfl

end Failover

end Ingress
