import Ingress.Framework.System
import Ingress.LoadBalancer.Status
import Mathlib.Tactic

/-! # Active Health Checks

    The health checker of a HTTP service (`pkg/healthcheck`).  Two loops check
    the targets: each takes the targets of its own channel on a tick, probes
    them one by one, and sends each to the channel of the healthy or of the
    unhealthy targets.

    * `executeHealthCheck`: what a probe makes of the answer of a backend.
    * `checker`: the interleavings of the two loops.
    * `targets_conserved`: when no target is lost and no loop ends. -/

open LTS Function

namespace Ingress.HealthCheck

/-! ## Probes -/

/-- The gRPC status codes that the check looks at. -/
inductive Code where
  | canceled
  | deadlineExceeded
  | unimplemented
  | other (code : Nat)
  deriving DecidableEq, Repr

/-- Errors: the two of `context`, a gRPC status, a text, and `fmt.Errorf` with
    a wrapped error. -/
inductive Err where
  | canceled
  | deadlineExceeded
  | status (code : Code) (desc : String)
  | text (msg : String)
  | wrap (msg : String) (err : Err)
  deriving DecidableEq, Repr

def Err.is : Err → Err → Bool
  | .wrap msg err, target => .wrap msg err = target || err.is target
  | err, target => err = target

/-- The code that `status.FromError` finds. -/
def Err.fromError : Err → Option Code
  | .status code _ => some code
  | .wrap _ err => err.fromError
  | _ => none

/-- What a HTTP probe of a backend comes to. -/
inductive HttpReply where
  | badRequest (err : Err)
  | failed (err : Err)
  | response (statusCode : Int)
  deriving DecidableEq, Repr

/-- The serving status of the gRPC health protocol. -/
inductive Serving where
  | unknown
  | serving
  | notServing
  | serviceUnknown
  deriving DecidableEq, Repr

/-- How a serving status is printed. -/
def Serving.text : Serving → String
  | .unknown => "UNKNOWN"
  | .serving => "SERVING"
  | .notServing => "NOT_SERVING"
  | .serviceUnknown => "SERVICE_UNKNOWN"

/-- What a gRPC probe of a backend comes to.  `serverAddr` is the address that
    is dialed. -/
inductive GrpcReply where
  | badURL (err : Err)
  | dialFailed (serverAddr : String) (err : Err)
  | failed (err : Err)
  | response (status : Serving)
  deriving DecidableEq, Repr

/-- How a backend answers the one or the other kind of probe. -/
structure Backend where
  http : HttpReply
  grpc : GrpcReply
  deriving DecidableEq, Repr

/-- A target: the server of a balancer. -/
structure Target where
  name : String
  targetURL : String
  deriving DecidableEq, Repr

/-- The health check of a service.  The targets are a map by name. -/
structure Config where
  modeGRPC : Bool
  /-- The expected status code, 0 when none is set. -/
  status : Int
  timeout : String
  targets : List Target
  targets_nodup : (targets.map Target.name).Nodup

variable (cfg : Config)

def checkHealthHTTP : HttpReply → Option Err
  | .badRequest err => some (.wrap "create HTTP request" err)
  | .failed err => some (.wrap "HTTP request failed" err)
  | .response statusCode =>
    if cfg.status = 0 ∧ (statusCode < 200 ∨ 400 ≤ statusCode) then
      some (.text s!"received error status code: {statusCode}")
    else if cfg.status ≠ 0 ∧ cfg.status ≠ statusCode then
      let expected := cfg.status
      some (.text s!"received error status code: {statusCode} expected status code: {expected}")
    else none

/-- `checkHealthGRPC`.  A backend that answers with the code `Canceled` makes the
    probe return `context.Canceled`. -/
def checkHealthGRPC : GrpcReply → Option Err
  | .badURL err => some (.wrap "failed to parse server URL" err)
  | .dialFailed serverAddr err =>
    let timeout := cfg.timeout
    if err.is .deadlineExceeded then
      some (.wrap s!"fail to connect to {serverAddr} within {timeout}" err)
    else some (.wrap s!"fail to connect to {serverAddr}" err)
  | .failed err =>
    match err.fromError with
    | some .unimplemented =>
      some (.wrap "gRPC server does not implement the health protocol" err)
    | some .deadlineExceeded => some (.wrap "gRPC health check timeout" err)
    | some .canceled => some .canceled
    | _ => some (.wrap "gRPC health check failed" err)
  | .response status =>
    if status ≠ .serving then
      let code := status.text
      some (.text s!"received gRPC status code: {code}")
    else none

def executeHealthCheck (backend : Backend) : Option Err :=
  if cfg.modeGRPC then checkHealthGRPC cfg backend.grpc
  else checkHealthHTTP cfg backend.http

/-- The errors of the transport that stand for a cancelled context. -/
def Err.Canceled (err : Err) : Prop :=
  err.is .canceled = true

/-- The backend answers as if the probe had been cancelled: by an error that
    wraps `context.Canceled`, or by the gRPC code `Canceled`. -/
def Backend.PretendsCanceled (backend : Backend) : Prop :=
  if cfg.modeGRPC then
    match backend.grpc with
    | .badURL err | .dialFailed _ err => err.Canceled
    | .failed err => err.fromError = some .canceled ∨ err.Canceled
    | .response _ => False
  else
    match backend.http with
    | .badRequest err | .failed err => err.Canceled
    | .response _ => False

open Err

@[simp] theorem Err.is_wrap_canceled (msg : String) (err : Err) :
    (wrap msg err).is .canceled = err.is .canceled := by
  simp [is]

/-- Which backends make a probe return `context.Canceled`. -/
theorem executeHealthCheck_canceled_iff (backend : Backend) :
    (∃ err, executeHealthCheck cfg backend = some err ∧ err.is .canceled = true) ↔
      backend.PretendsCanceled cfg := by
  unfold executeHealthCheck Backend.PretendsCanceled
  split
  · cases backend.grpc with
    | badURL err => simp [checkHealthGRPC, Err.Canceled]
    | dialFailed addr err =>
      simp only [checkHealthGRPC, Err.Canceled]
      split <;> simp
    | failed err =>
      simp only [checkHealthGRPC, Err.Canceled]
      split <;> simp_all [is]
    | response status =>
      simp only [checkHealthGRPC]
      split <;> simp [is]
  · cases backend.http with
    | badRequest err | failed err => simp [checkHealthHTTP, Err.Canceled]
    | response code =>
      simp only [checkHealthHTTP]
      split
      · simp [is]
      · split <;> simp [is]

/-! ## The loops -/

/-- The two loops; each has a channel of its own. -/
inductive Queue where
  | healthy
  | unhealthy
  deriving DecidableEq, Repr

/-- The channel a checked target is sent to. -/
def Queue.ofStatus (up : Bool) : Queue :=
  if up then .healthy else .unhealthy

/-- Where a loop stands: at its outer select, collecting, before the check of the
    first pending target, in the probe of a target, before `SetStatus`, at the
    send, before `UpdateServerStatus`. -/
inductive Pc where
  | waiting
  | collecting (targetsToCheck : List Target)
  | checking (pending : List Target)
  | probing (target : Target) (rest : List Target)
  | reporting (target : Target) (up : Bool) (rest : List Target)
  | sending (target : Target) (up : Bool) (rest : List Target)
  | updating (target : Target) (up : Bool) (rest : List Target)
  | returned
  deriving DecidableEq, Repr

/-- The checker: its channels, its loops, the context, the status map of the
    balancer and the server statuses of the runtime information. -/
structure State where
  chan : Queue → List Target
  pc : Queue → Pc
  ctxDone : Bool
  balancer : StatusMap
  serverStatus : String → Option Bool

/-- Move loop `q` to another point. -/
def State.goto (s : State) (q : Queue) (pc : Pc) : State :=
  { s with pc := Function.update s.pc q pc }

/-- The steps of loop `q`, and the cancellation of the context. -/
inductive Label where
  | tick (q : Queue)
  | take (q : Queue)
  | collected (q : Queue)
  | next (q : Queue)
  | outcome (q : Queue) (backend : Backend)
  | setStatus (q : Queue)
  | send (q : Queue)
  | updateServerStatus (q : Queue)
  | leave (q : Queue)
  | cancel

/-- The loop after the probe of a target. -/
def afterProbe (target : Target) (rest : List Target) : Option Err → Pc
  | none => .reporting target true rest
  | some err =>
    -- the context is canceled when the dynamic configuration is refreshed
    if err.is .canceled then .returned else .reporting target false rest

/-- A select that watches the context. -/
def Pc.watches : Pc → Bool
  | .waiting | .collecting _ | .checking (_ :: _) => true
  | _ => false

/-- The interleavings of the two loops. -/
def checker : System State Label where
  init := fun s =>
    (s.chan .healthy).Perm cfg.targets ∧ s.chan .unhealthy = [] ∧
    (∀ q, s.pc q = .waiting) ∧ s.ctxDone = false
  step := fun s label s' =>
    match label with
    | .tick q => s.pc q = .waiting ∧ s' = s.goto q (.collecting [])
    | .take q =>
        ∃ targets target rest, s.pc q = .collecting targets ∧ s.chan q = target :: rest ∧
        s' = { s.goto q (.collecting (targets ++ [target])) with
          chan := Function.update s.chan q rest }
    | .collected q =>
        ∃ targets, s.pc q = .collecting targets ∧ s.chan q = [] ∧ s.ctxDone = false ∧
        s' = s.goto q (.checking targets)
    | .next q =>
        (s.pc q = .checking [] ∧ s' = s.goto q .waiting) ∨
        ∃ target rest, s.pc q = .checking (target :: rest) ∧ s.ctxDone = false ∧
          s' = s.goto q (.probing target rest)
    | .outcome q backend =>
        ∃ target rest, s.pc q = .probing target rest ∧
        s' = s.goto q (afterProbe target rest (executeHealthCheck cfg backend))
    | .setStatus q =>
        ∃ target up rest, s.pc q = .reporting target up rest ∧
        s' = { s.goto q (.sending target up rest) with
          balancer := (s.balancer.setStatus target.name up).1 }
    | .send q =>
        ∃ target up rest, s.pc q = .sending target up rest ∧
        (s.chan (.ofStatus up)).length < cfg.targets.length ∧
        s' = { s.goto q (.updating target up rest) with
          chan := Function.update s.chan (.ofStatus up) (s.chan (.ofStatus up) ++ [target]) }
    | .updateServerStatus q =>
        ∃ target up rest, s.pc q = .updating target up rest ∧
        s' = { s.goto q (.checking rest) with
          serverStatus := Function.update s.serverStatus target.targetURL (some up) }
    | .leave q => (s.pc q).watches = true ∧ s.ctxDone = true ∧ s' = s.goto q .returned
    | .cancel => s' = { s with ctxDone := true }

/-! ## Conservation -/

/-- The targets a loop holds. -/
def Pc.held : Pc → List Target
  | .collecting targets => targets
  | .checking pending => pending
  | .probing target rest => target :: rest
  | .reporting target _ rest => target :: rest
  | .sending target _ rest => target :: rest
  | .updating _ _ rest => rest
  | .waiting | .returned => []

/-- All places of a target: the channels and what the loops hold. -/
def State.places (s : State) : List Target :=
  s.chan .healthy ++ s.chan .unhealthy ++ (s.pc .healthy).held ++ (s.pc .unhealthy).held

/-- A loop is blocked by a full channel. -/
def Blocked (s : State) (q : Queue) : Prop :=
  ∃ target up rest, s.pc q = .sending target up rest ∧
    cfg.targets.length ≤ (s.chan (.ofStatus up)).length

/-- Every target is in exactly one place and nothing else is anywhere, no send
    blocks, and no loop has returned. -/
structure Conserved (s : State) : Prop where
  once : ∀ target ∈ cfg.targets, s.places.count target = 1
  only : ∀ target ∈ s.places, target ∈ cfg.targets
  unblocked : ∀ q, ¬ Blocked cfg s q
  running : ∀ q, s.pc q ≠ .returned

/-- The condition on the steps of a run: while the context is alive, no backend
    answers a probe as if it had been cancelled. -/
def NoneCanceled (s : State) : Label → Prop
  | .outcome _ backend => s.ctxDone = false → ¬ backend.PretendsCanceled cfg
  | _ => True

variable {cfg : Config} {s s' : State} {label : Label}

variable {q : Queue} {pc : Pc}

/-- A loop that moves on with the same targets. -/
theorem places_goto (h : pc.held.Perm (s.pc q).held) : (s.goto q pc).places.Perm s.places := by
  cases q with
  | healthy =>
    exact (h.append_left _).append_right _
  | unhealthy =>
    exact h.append_left _

open State Pc

theorem places_take {targets rest : List Target} {target : Target}
    (hpc : s.pc q = .collecting targets) (hchan : s.chan q = target :: rest) :
    places { s.goto q (.collecting (targets ++ [target])) with
      chan := update s.chan q rest } |>.Perm s.places := by
  rw [List.perm_iff_count]
  intro x
  cases q <;>
    simp [places, goto, hpc, hchan, held, List.count_cons, update] <;>
    omega

theorem places_send {target : Target} {up : Bool} {rest : List Target}
    (hpc : s.pc q = .sending target up rest) :
    places { s.goto q (.updating target up rest) with
      chan := update s.chan (.ofStatus up) (s.chan (.ofStatus up) ++ [target]) }
      |>.Perm s.places := by
  rw [List.perm_iff_count]
  intro x
  cases q <;> cases up <;>
    simp [places, goto, hpc, held, List.count_cons, update, Queue.ofStatus] <;>
    omega

/-- The targets are those of the configuration, and the loops run. -/
def Kept (cfg : Config) (s : State) : Prop :=
  s.places.Perm cfg.targets ∧ ∀ q, s.pc q ≠ .returned

theorem running_goto (h : ∀ q, s.pc q ≠ .returned) (hrun : pc ≠ .returned)
    (q q' : Queue) : (s.goto q pc).pc q' ≠ .returned := by
  by_cases hq : q' = q
  · subst hq
    simpa [goto] using hrun
  · simpa [goto, update_of_ne hq] using h q'

theorem Kept.goto (h : Kept cfg s) (hheld : pc.held.Perm (s.pc q).held)
    (hrun : pc ≠ .returned) : Kept cfg (s.goto q pc) :=
  ⟨(places_goto hheld).trans h.1, running_goto h.2 hrun q⟩

/-- The probe of a backend that does not pretend to be cancelled goes on to the
    report of the target. -/
theorem afterProbe_eq {backend : Backend} (h : ¬ backend.PretendsCanceled cfg)
    (target : Target) (rest : List Target) :
    ∃ up, afterProbe target rest (executeHealthCheck cfg backend) =
      .reporting target up rest := by
  cases hexec : executeHealthCheck cfg backend with
  | none => exact ⟨true, rfl⟩
  | some err =>
    have hother : err.is .canceled ≠ true := fun hcancel =>
      h ((executeHealthCheck_canceled_iff cfg backend).mp ⟨err, hexec, hcancel⟩)
    exact ⟨false, by simp [afterProbe, hother]⟩

/-- The other backends end the loop. -/
theorem afterProbe_returned {backend : Backend} (h : backend.PretendsCanceled cfg)
    (target : Target) (rest : List Target) :
    afterProbe target rest (executeHealthCheck cfg backend) = .returned := by
  obtain ⟨err, hexec, hcancel⟩ := (executeHealthCheck_canceled_iff cfg backend).mpr h
  simp [hexec, afterProbe, hcancel]

/-- A cancelled context stays cancelled. -/
theorem ctxDone_of_step (hstep : (checker cfg).step s label s') (h : s'.ctxDone = false) :
    s.ctxDone = false := by
  cases label with
  | tick q => obtain ⟨_, rfl⟩ := hstep; exact h
  | take q | send q => obtain ⟨_, _, _, _, _, rfl⟩ := hstep; exact h
  | collected q | setStatus q | updateServerStatus q =>
    obtain ⟨_, _, _, _, rfl⟩ := hstep; exact h
  | next q => rcases hstep with ⟨_, rfl⟩ | ⟨_, _, _, _, rfl⟩ <;> exact h
  | outcome q backend => obtain ⟨_, _, _, rfl⟩ := hstep; exact h
  | leave q => obtain ⟨_, _, rfl⟩ := hstep; exact h
  | cancel => obtain rfl := hstep; cases h

/-- **One step** that meets the condition, under a context that is alive. -/
theorem Kept.step (h : Kept cfg s) (halive : s'.ctxDone = false)
    (hstep : (checker cfg).step s label s') (hok : NoneCanceled cfg s label) : Kept cfg s' := by
  have halive₀ := ctxDone_of_step hstep halive
  cases label with
  | tick q =>
    obtain ⟨hpc, rfl⟩ := hstep
    exact h.goto (by simp [hpc, held]) (by simp)
  | take q =>
    obtain ⟨targets, target, rest, hpc, hchan, rfl⟩ := hstep
    exact ⟨(places_take hpc hchan).trans h.1, running_goto h.2 (by simp) q⟩
  | collected q =>
    obtain ⟨targets, hpc, _, _, rfl⟩ := hstep
    exact h.goto (by simp [hpc, held]) (by simp)
  | next q =>
    rcases hstep with ⟨hpc, rfl⟩ | ⟨target, rest, hpc, _, rfl⟩ <;>
      exact h.goto (by simp [hpc, held]) (by simp)
  | outcome q backend =>
    obtain ⟨target, rest, hpc, rfl⟩ := hstep
    obtain ⟨up, hup⟩ := afterProbe_eq (hok halive₀) target rest
    rw [hup]
    exact h.goto (by simp [hpc, held]) (by simp)
  | setStatus q | updateServerStatus q =>
    obtain ⟨target, up, rest, hpc, rfl⟩ := hstep
    exact h.goto (by simp [hpc, held]) (by simp)
  | send q =>
    obtain ⟨target, up, rest, hpc, _, rfl⟩ := hstep
    exact ⟨(places_send hpc).trans h.1, running_goto h.2 (by simp) q⟩
  | leave q =>
    -- a loop watches the context only for its end
    obtain ⟨_, hdone, rfl⟩ := hstep
    rw [halive₀] at hdone
    cases hdone
  | cancel =>
    obtain rfl := hstep
    cases halive

/-- What is kept is conserved: a send finds room because the target it sends is
    still held by its loop. -/
theorem Kept.conserved (h : Kept cfg s) : Conserved cfg s where
  once := by
    intro target htgt
    rw [h.1.count_eq]
    exact List.count_eq_one_of_mem (List.Nodup.of_map _ cfg.targets_nodup) htgt
  only := fun target htgt => h.1.mem_iff.mp htgt
  unblocked := by
    -- a full channel holds all targets, and there is one more at the send
    intro q ⟨target, up, rest, hpc, hfull⟩
    have hlen := h.1.length_eq
    simp only [places, List.length_append] at hlen
    cases q <;> cases up <;> simp [hpc, held, Queue.ofStatus] at hlen hfull <;> omega
  running := h.2

/-- What the targets of a checker are under a context that is alive. -/
def ConservedWhileAlive (cfg : Config) (s : State) : Prop :=
  s.ctxDone = false → Conserved cfg s

theorem reachable_kept (h : ((checker cfg).restrict (NoneCanceled cfg)).Reachable s) :
    s.ctxDone = false → Kept cfg s := by
  apply System.invariant (fun s => s.ctxDone = false → Kept cfg s) ?_ ?_ h
  · intro s ⟨hhealthy, hunhealthy, hpc, _⟩ _
    refine ⟨?_, fun q => by rw [hpc q]; simp⟩
    simpa [places, hunhealthy, hpc, held] using hhealthy
  · intro s label s' ih ⟨hok, hstep⟩ halive
    exact (ih (ctxDone_of_step hstep halive)).step halive hstep hok

/-- A step that does not meet the condition ends a loop. -/
theorem returned_of_canceled (hstep : (checker cfg).step s label s')
    (hcancel : ¬ NoneCanceled cfg s label) : s'.ctxDone = false ∧ ∃ q, s'.pc q = .returned := by
  cases label with
  | outcome q backend =>
    obtain ⟨target, rest, _, rfl⟩ := hstep
    simp only [NoneCanceled, Classical.not_imp, not_not] at hcancel
    obtain ⟨halive, hpretends⟩ := hcancel
    refine ⟨halive, q, ?_⟩
    simp [goto, afterProbe_returned hpretends]
  | _ => exact absurd trivial hcancel

/-- **Conservation**: as long as no backend answers a probe as if it had been
    cancelled, every target stays in exactly one place, no send blocks and both
    loops run, until the context is cancelled.  The first such answer ends a
    loop. -/
theorem targets_conserved (h : ((checker cfg).restrict (NoneCanceled cfg)).Reachable s) :
    ConservedWhileAlive cfg s ∧
      ∀ label s', (checker cfg).step s label s' →
        (ConservedWhileAlive cfg s' ↔ NoneCanceled cfg s label) := by
  refine ⟨fun halive => (reachable_kept h halive).conserved, ?_⟩
  intro label s' hstep
  constructor
  · intro hconserved
    by_contra hcancel
    obtain ⟨halive, q, hq⟩ := returned_of_canceled hstep hcancel
    exact (hconserved halive).running q hq
  · intro hok halive
    exact ((reachable_kept h (ctxDone_of_step hstep halive)).step halive hstep hok).conserved

/-- A gRPC service with one server. -/
def sampleTarget : Target where
  name := "a"
  targetURL := "http://a"

def sampleConfig : Config where
  modeGRPC := true
  status := 0
  timeout := "5s"
  targets := [sampleTarget]
  targets_nodup := by decide

/-- The loop of the healthy targets probes the server. -/
def sampleProbe : State where
  chan := fun _ => []
  pc := Function.update (fun _ => .waiting) .healthy (.probing sampleTarget [])
  ctxDone := false
  balancer := {"a"}
  serverStatus := fun _ => none

theorem sampleProbe_reachable :
    ((checker sampleConfig).restrict (NoneCanceled sampleConfig)).Reachable sampleProbe := by
  let sys := (checker sampleConfig).restrict (NoneCanceled sampleConfig)
  let s₀ : State := { sampleProbe with
    chan := update (fun _ => []) .healthy [sampleTarget], pc := fun _ => .waiting }
  have h₀ : sys.Reachable s₀ := .init ⟨.refl _, rfl, fun _ => rfl, rfl⟩
  have h₁ : sys.Reachable (s₀.goto .healthy (.collecting [])) :=
    .step (.tick .healthy) h₀ ⟨trivial, rfl, rfl⟩
  have h₂ : sys.Reachable { s₀.goto .healthy (.collecting [sampleTarget]) with
      chan := fun _ => [] } :=
    .step (.take .healthy) h₁ ⟨trivial, [], sampleTarget, [], rfl, rfl, by
      simp [goto, s₀, sampleProbe]⟩
  have h₃ : sys.Reachable { s₀.goto .healthy (.checking [sampleTarget]) with
      chan := fun _ => [] } :=
    .step (.collected .healthy) h₂ ⟨trivial, [sampleTarget], rfl, rfl, rfl, by simp [goto]⟩
  exact .step (.next .healthy) h₃ ⟨trivial, .inr ⟨sampleTarget, [], rfl, rfl, by
    simp [goto, s₀, sampleProbe]⟩⟩

/-- During the probe the server is held by the loop, once. -/
theorem sampleProbe_conserved :
    ((checker sampleConfig).restrict (NoneCanceled sampleConfig)).Reachable sampleProbe ∧
      Conserved sampleConfig sampleProbe :=
  ⟨sampleProbe_reachable, (targets_conserved sampleProbe_reachable).1 rfl⟩

/-- A server that answers the probe with the gRPC code `Canceled` ends the loop
    of the healthy targets, and is never checked again. -/
theorem sampleProbe_lost :
    ∃ s, (checker sampleConfig).Reachable s ∧ s.ctxDone = false ∧
      s.pc .healthy = .returned ∧ s.places = [] ∧ ¬ ConservedWhileAlive sampleConfig s := by
  let backend : Backend := ⟨.response 200, .failed (.status .canceled "canceled")⟩
  have h : (checker sampleConfig).Reachable (sampleProbe.goto .healthy .returned) :=
    .step (.outcome .healthy backend) sampleProbe_reachable.of_restrict
      ⟨sampleTarget, [], rfl, rfl⟩
  refine ⟨_, h, rfl, rfl, rfl, ?_⟩
  intro hconserved
  exact (hconserved rfl).running .healthy rfl

end Ingress.HealthCheck
