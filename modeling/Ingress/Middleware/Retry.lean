import Ingress.LoadBalancer.FailoverWriter

/-! # The Retry Middleware

    `pkg/middlewares/retry`: a request is given to the next handler again while its
    response has one of the configured statuses, or while the handler says through
    `ShouldRetry` that the request never reached a server.  Each attempt writes to a
    response writer of its own, which withholds what a pending retry will replace.

    * `ResponseWriter`, `serveHTTP`: the code.
    * `next`: what one call does to the pending retry, when it is withheld.
    * `exec_first`, `exec_committed`: what a call does at the client.
    * `leaves_no_trace_iff`: when an attempt leaves no trace at the client. -/

open Nat Except Option

namespace Ingress.Retry

open Http Failover

/-! ## The code -/

/-- The fields of `retry`. -/
structure Config where
  attempts : ℕ
  statusCode : HTTPCodeRanges
  disableRetryOnNetworkError : Bool
  initialInterval : ℤ
  timeout : ℤ
  retryNonIdempotentMethod : Bool

/-- `timeout > 0 && time.Since(start) >= timeout`. -/
def timedOut (timeout elapsed : ℤ) : Bool :=
  0 < timeout && timeout ≤ elapsed

/-- What an operation knows when it starts: the statuses to retry, whether attempts
    remain, the timeout, and whether the handler can call `ShouldRetry`. -/
structure Policy where
  statusCodeRange : HTTPCodeRanges
  remainAttempts : Bool
  timeout : ℤ
  networkErrors : Bool

/-- The status is one to retry. -/
def Policy.retries (p : Policy) (code elapsed : ℤ) : Bool :=
  decide (p.statusCodeRange.Contains code) && p.remainAttempts && !timedOut p.timeout elapsed

/-- What `ShouldRetry` sets. -/
def Policy.allows (p : Policy) (shouldRetry : Bool) (elapsed : ℤ) : Bool :=
  shouldRetry && p.remainAttempts && !timedOut p.timeout elapsed

/-- The writer of an attempt, over the writer of the client. -/
structure ResponseWriter extends Policy where
  client : Writer
  headers : Header
  shouldRetry : Bool
  written : Bool

/-- `maps.Copy`. -/
def copyHeader (dst src : Header) : Header :=
  src ∪ dst

namespace ResponseWriter

/-- `newResponseWriter`. -/
def new (p : Policy) (client : Writer) : ResponseWriter where
  toPolicy := p
  client
  headers := ∅
  shouldRetry := false
  written := false

/-- A change of the map that `Header` returns. -/
def header (r : ResponseWriter) (edit : Header → Header) : ResponseWriter :=
  if r.written && !r.shouldRetry then
    { r with client := { r.client with header := edit r.client.header } }
  else { r with headers := edit r.headers }

/-- The end of `WriteHeader`, without a retry. -/
def commit (r : ResponseWriter) (code : ℤ) : Except Panic ResponseWriter := do
  let client ← Writer.writeHeader { r.client with header := copyHeader r.client.header r.headers } code
  .ok { r with client, written := true }

/-- `WriteHeader`.  The statuses to retry are nil when there are none. -/
def writeHeader (r : ResponseWriter) (code elapsed : ℤ) : Except Panic ResponseWriter :=
  if r.shouldRetry || r.written then .ok r
  else if Informational code then .ok { r with headers := ∅ }
  else if r.retries code elapsed then .ok { r with shouldRetry := true }
  else r.commit code

/-- The call of `WriteHeader` in the first `Write`. -/
def ensureHeader (r : ResponseWriter) (elapsed : ℤ) : Except Panic ResponseWriter :=
  if r.written then .ok r else r.writeHeader 200 elapsed

/-- `Write`.  What `WriteHeader` decides is not looked at. -/
def write (r : ResponseWriter) (buf : List UInt8) (elapsed : ℤ) : Except Panic ResponseWriter :=
  if r.shouldRetry then .ok r
  else do
    let r ← r.ensureHeader elapsed
    .ok { r with client := r.client.write buf }

def flush (r : ResponseWriter) : ResponseWriter :=
  { r with client := r.client.flush }

end ResponseWriter

/-- A call of the next handler: on its writer, or of `ShouldRetry`. -/
inductive Call where
  | op (op : Op)
  | shouldRetry (shouldRetry : Bool)

/-- A call, with the time since the start of the request. -/
structure Event where
  elapsed : ℤ
  call : Call

/-- One call. -/
def ResponseWriter.exec (r : ResponseWriter) (e : Event) : Except Panic ResponseWriter :=
  match e.call with
  | .op (.header edit) => .ok (r.header edit)
  | .op (.writeHeader code) => r.writeHeader code e.elapsed
  | .op (.write buf) => r.write buf e.elapsed
  | .op .flush => .ok r.flush
  | .shouldRetry b =>
    if r.networkErrors then .ok { r with shouldRetry := r.allows b e.elapsed } else .ok r

/-- The calls of an attempt. -/
def ResponseWriter.run (r : ResponseWriter) (events : List Event) : Except Panic ResponseWriter :=
  events.foldlM exec r

/-- What the next handler does in one attempt, and what the clock says when it has
    returned and when the back-off is asked for the next interval. -/
structure Attempt where
  events : List Event
  returned : ℤ
  asked : ℤ
  interval : ℤ

/-- The largest elapsed time of an exponential back-off, in nanoseconds. -/
def defaultMaxElapsedTime : ℤ := 900000000000

/-- `newBackOff`: the back-off is not over.  It is exponential when there is an initial
    interval, and never over otherwise. -/
def Config.backsOff (cfg : Config) (a : Attempt) : Bool :=
  cfg.attempts < 2 || cfg.initialInterval ≤ 0 || a.asked + a.interval ≤ defaultMaxElapsedTime

/-- What the operation of the `n`-th attempt gives its writer. -/
def Config.policy (cfg : Config) (isIdempotent : Bool) (n : ℕ) : Policy where
  statusCodeRange := if cfg.retryNonIdempotentMethod || isIdempotent then cfg.statusCode else []
  remainAttempts := n < cfg.attempts
  timeout := cfg.timeout
  networkErrors := !cfg.disableRetryOnNetworkError

open ResponseWriter

/-- `backoff.RetryNotify` of the operation, from the attempt after which `remaining` are
    left, for a request that stays alive: the client's writer, and the number of the last
    attempt. -/
def Config.retryNotify (cfg : Config) (isIdempotent : Bool) (attempt : ℕ → Attempt) (remaining : ℕ)
    (client : Writer) : Except Panic (Writer × ℕ) := do
  let n := cfg.attempts - remaining
  let r ← (new (cfg.policy isIdempotent n) client).run (attempt n).events
  if !r.shouldRetry || timedOut cfg.timeout (attempt n).returned || !cfg.backsOff (attempt n) then
    .ok (r.client, n)
  else
    match remaining with
    | 0 => .ok (r.client, n)
    | remaining + 1 => cfg.retryNotify isIdempotent attempt remaining r.client

/-- The calls on the writer. -/
def Attempt.ops (a : Attempt) : List Op :=
  a.events.filterMap fun e =>
    match e.call with
    | .op op => some op
    | .shouldRetry _ => none

/-- `ServeHTTP`: the client's writer, and how often the next handler is called.  `body` is
    the outcome of `NewReusableRequest`.  With one attempt the next handler has the writer
    of the client. -/
def Config.serveHTTP (cfg : Config) (isIdempotent : Bool) (body : Option BodyError)
    (attempt : ℕ → Attempt) (client : Writer) : Except Panic (Writer × ℕ) :=
  if cfg.attempts = 1 then (client.run (attempt 1).ops).map (·, 1)
  else
    match (if cfg.statusCode = [] then none else body) with
    | some .other => (client.run (httpError "Internal Server Error" 500)).map (·, 0)
    | some .bodyTooLarge => (client.run (httpError "Request body too large" 413)).map (·, 0)
    | none => cfg.retryNotify isIdempotent attempt (cfg.attempts - 1) client

/-! ## Calls that are withheld -/

/-- The pending retry after a call that is withheld, given whether one is pending before
    it; nothing when the call reaches the client. -/
def Policy.next (p : Policy) (pending : Bool) (e : Event) : Option Bool :=
  match e.call with
  | .op (.header _) => some pending
  | .op (.writeHeader code) =>
    if pending || Informational code then some pending
    else if p.retries code e.elapsed then some true
    else none
  | .op (.write _) => if pending then some true else none
  | .op .flush => none
  | .shouldRetry b => some (if p.networkErrors then p.allows b e.elapsed else pending)

/-- All calls are withheld: there is no `Flush`, every `Write` finds a retry pending, and
    every final status finds one or is to be retried. -/
def Policy.Withheld (p : Policy) (pending : Bool) (events : List Event) : Prop :=
  (events.foldlM p.next pending).isSome = true

instance (p : Policy) (pending : Bool) (events : List Event) : Decidable (p.Withheld pending events) :=
  inferInstanceAs (Decidable (_ = true))

variable {r r' : ResponseWriter} {e : Event} {events : List Event}

theorem run_cons (r : ResponseWriter) (e : Event) (events : List Event) :
    r.run (e :: events) = r.exec e >>= fun r => r.run events := by
  simp [ResponseWriter.run]

/-- `ShouldRetry` sets the flag if it is there at all. -/
theorem exec_shouldRetry (r : ResponseWriter) (dt : ℤ) (b : Bool) :
    r.exec ⟨dt, .shouldRetry b⟩ = .ok { r with
      shouldRetry := if r.networkErrors then r.allows b dt else r.shouldRetry } := by
  unfold ResponseWriter.exec
  dsimp only
  split <;> rfl

/-- A final status, while nothing is pending or written. -/
theorem writeHeader_final {code : ℤ} (hpend : r.shouldRetry = false) (hwrote : r.written = false)
    (hinf : ¬ Informational code) (dt : ℤ) :
    r.writeHeader code dt =
      if r.retries code dt then .ok { r with shouldRetry := true } else r.commit code := by
  rw [ResponseWriter.writeHeader, if_neg (by simp [hpend, hwrote]), if_neg hinf]

variable {pending : Bool}

open Policy

/-- A call that is withheld changes nothing at the client. -/
theorem exec_withheld (hwrote : r.written = false) (h : r.next r.shouldRetry e = some pending) :
    ∃ r', r.exec e = .ok r' ∧ r'.toPolicy = r.toPolicy ∧ r'.client = r.client ∧
      r'.written = false ∧ r'.shouldRetry = pending := by
  obtain ⟨dt, call⟩ := e
  match call with
  | .op (.header edit) =>
    refine ⟨{ r with headers := edit r.headers }, ?_, rfl, rfl, hwrote, some.inj h⟩
    simp [ResponseWriter.exec, ResponseWriter.header, hwrote]
  | .op (.writeHeader code) =>
    cases hpend : r.shouldRetry with
    | true =>
      have hp : true = pending := by simpa [next, hpend] using h
      refine ⟨r, ?_, rfl, rfl, hwrote, hpend.trans hp⟩
      simp [ResponseWriter.exec, ResponseWriter.writeHeader, hpend]
    | false =>
      by_cases hinf : Informational code
      · have hp : false = pending := by simpa [next, hpend, hinf] using h
        refine ⟨{ r with headers := ∅ }, ?_, rfl, rfl, hwrote, hpend.trans hp⟩
        simp [ResponseWriter.exec, ResponseWriter.writeHeader, hpend, hwrote, hinf]
      · have hretry : r.retries code dt = true ∧ true = pending := by
          simpa [next, hpend, hinf] using h
        refine ⟨_, (writeHeader_final hpend hwrote hinf _).trans (if_pos hretry.1), rfl, rfl,
          hwrote, hretry.2⟩
  | .op (.write buf) =>
    have hp : r.shouldRetry = true ∧ true = pending := by simpa [next] using h
    refine ⟨r, ?_, rfl, rfl, hwrote, hp.1.trans hp.2⟩
    simp [ResponseWriter.exec, ResponseWriter.write, hp.1]
  | .op .flush => cases h
  | .shouldRetry b => exact ⟨_, exec_shouldRetry r dt b, rfl, rfl, hwrote, some.inj h⟩

/-! ## Calls that reach the client -/

variable {p : Policy}

/-- A status that is not withheld. -/
theorem next_writeHeader_none {code dt : ℤ}
    (h : p.next pending ⟨dt, .op (.writeHeader code)⟩ = none) :
    pending = false ∧ ¬ Informational code ∧ p.retries code dt = false := by
  simp only [next] at h
  split at h
  · cases h
  · next hpass =>
    split at h
    · cases h
    · next hretry =>
      simp only [Bool.or_eq_true, decide_eq_true_eq, not_or, Bool.not_eq_true] at hpass hretry
      exact ⟨hpass.1, hpass.2, hretry⟩

/-- The status that a call commits when it reaches the client. -/
def Event.code (e : Event) : ℤ :=
  match e.call with
  | .op (.writeHeader code) => code
  | _ => 200

/-- The call gives a final status: `WriteHeader`, or `Write`, which stands for 200. -/
def Event.isFinal (e : Event) : Bool :=
  match e.call with
  | .op (.writeHeader code) => !decide (Informational code)
  | .op (.write _) => true
  | _ => false

/-- The call sends the header, unless a retry is pending. -/
def Policy.sends (p : Policy) (e : Event) : Bool :=
  e.isFinal && !p.retries e.code e.elapsed

/-- What the first call that reaches the client copies of the headers of the attempt: nothing,
    when it does not send the header. -/
def Policy.copies (p : Policy) (e : Event) (headers : Header) : Header :=
  if p.sends e then headers else ∅

/-- The bytes that are written. -/
def bodyOf (events : List Event) : List UInt8 :=
  events.flatMap fun e =>
    match e.call with
    | .op (.write buf) => buf
    | _ => []

variable {w : Writer} {status : ℤ × Header}

theorem write_body (h : w.committed = some status) (buf : List UInt8) :
    (w.write buf).committed = some status ∧
      (w.write buf).body = w.body ++ if Writer.bodyAllowed status.1 then buf else [] := by
  have hsame : w.commitOK = w := by rw [Writer.commitOK, h]
  unfold Writer.write
  rw [hsame, h]
  dsimp only
  split
  · exact ⟨h, rfl⟩
  · exact ⟨h, (List.append_nil _).symm⟩

open Outcome

/-- A committed status stays, whatever a status does. -/
theorem writeHeader_committed {code dt : ℤ} (hclient : r.client.committed = some status)
    (h : r.writeHeader code dt = .ok r') :
    r'.client.committed = some status ∧ r'.client.body = r.client.body := by
  unfold ResponseWriter.writeHeader at h
  split at h
  · cases ok.inj h
    exact ⟨hclient, rfl⟩
  split at h
  · cases ok.inj h
    exact ⟨hclient, rfl⟩
  split at h
  · cases ok.inj h
    exact ⟨hclient, rfl⟩
  · -- the client's writer ignores a second status
    obtain ⟨client, hwrite, h⟩ := ok_of_bind h
    cases ok.inj h
    unfold Writer.writeHeader at hwrite
    rw [show ({ r.client with header := copyHeader r.client.header r.headers } :
      Writer).committed = some status from hclient] at hwrite
    cases ok.inj hwrite
    exact ⟨hclient, rfl⟩

/-- **A call after a status was committed**: the status stays, and a `Write` adds its bytes when
    no retry is pending. -/
theorem exec_committed (hclient : r.client.committed = some status) (h : r.exec e = .ok r') :
    r'.client.committed = some status ∧ r'.client.body = r.client.body ++
      if Writer.bodyAllowed status.1 = true ∧ r.shouldRetry = false then bodyOf [e] else [] := by
  obtain ⟨dt, call⟩ := e
  match call with
  | .op (.header edit) =>
    cases ok.inj h
    unfold ResponseWriter.header
    split <;> exact ⟨hclient, by simp [bodyOf]⟩
  | .op (.writeHeader code) =>
    obtain ⟨hkept, hbody⟩ := writeHeader_committed hclient h
    exact ⟨hkept, by simp [hbody, bodyOf]⟩
  | .op (.write buf) =>
    replace h : r.write buf dt = .ok r' := h
    unfold ResponseWriter.write at h
    split at h
    · next hpend =>
      cases ok.inj h
      exact ⟨hclient, by simp [hpend]⟩
    next hpend =>
    obtain ⟨r₁, hensure, h⟩ := ok_of_bind h
    cases ok.inj h
    obtain ⟨hkept, hsame⟩ : r₁.client.committed = some status ∧ r₁.client.body = r.client.body := by
      unfold ensureHeader at hensure
      split at hensure
      · cases ok.inj hensure
        exact ⟨hclient, rfl⟩
      · exact writeHeader_committed hclient hensure
    obtain ⟨hkept', hbody⟩ := write_body hkept buf
    exact ⟨hkept', by simpa [hsame, hpend, bodyOf] using hbody⟩
  | .op .flush =>
    cases ok.inj h
    have hflush : r.client.flush = r.client := by rw [Writer.flush, Writer.commitOK, hclient]
    exact ⟨by simpa [ResponseWriter.flush, hflush] using hclient,
      by simp [ResponseWriter.flush, hflush, bodyOf]⟩
  | .shouldRetry b =>
    rw [exec_shouldRetry] at h
    cases ok.inj h
    exact ⟨hclient, by simp [bodyOf]⟩

/-- The first `Write` on the writer of the client. -/
theorem write_of_none (h : w.committed = none) (buf : List UInt8) :
    (w.write buf).committed = some (200, w.header) ∧ (w.write buf).body = w.body ++ buf := by
  have hok : w.commitOK = { w with committed := some (200, w.header) } := by
    rw [Writer.commitOK, h]
  rw [Writer.write, hok]
  exact ⟨rfl, rfl⟩

theorem commit_of_none {code : ℤ} (hinf : ¬ Informational code) (hclient : r.client.committed = none)
    (h : r.commit code = .ok r') :
    r'.client.committed = some (code, copyHeader r.client.header r.headers) ∧
      r'.client.body = r.client.body := by
  obtain ⟨client, hhdr, h⟩ := ok_of_bind h
  obtain rfl := ok.inj h
  unfold Writer.writeHeader at hhdr
  rw [hclient] at hhdr
  dsimp only at hhdr
  split at hhdr
  · cases hhdr
  · obtain rfl := ok.inj hhdr
    exact ⟨rfl, rfl⟩

theorem copyHeader_empty (h : Header) : copyHeader h ∅ = h :=
  AList.empty_union

/-- **The call that reaches the client** commits its status, with the headers of the attempt.
    `Write` commits status 200 whether this status is to be retried or not, but copies no headers
    when it is. -/
theorem exec_first (hwrote : r.written = false) (hclient : r.client.committed = none)
    (hnext : r.next r.shouldRetry e = none) (h : r.exec e = .ok r') :
    r'.client.committed = some (e.code, copyHeader r.client.header (r.copies e r.headers)) ∧
      r'.client.body = r.client.body ++ if Writer.bodyAllowed e.code then bodyOf [e] else [] := by
  obtain ⟨dt, call⟩ := e
  match call with
  | .op (.header edit) => cases hnext
  | .op (.writeHeader code) =>
    obtain ⟨hpend, hinf, hretry⟩ := next_writeHeader_none hnext
    replace h : r.writeHeader code dt = .ok r' := h
    rw [writeHeader_final hpend hwrote hinf, if_neg (by simp [hretry])] at h
    have hsends : r.sends ⟨dt, .op (.writeHeader code)⟩ = true := by
      simp [sends, Event.isFinal, hinf, Event.code, hretry]
    rw [copies, if_pos hsends]
    obtain ⟨hcommit, hbody⟩ := commit_of_none hinf hclient h
    exact ⟨hcommit, by simp [hbody, bodyOf]⟩
  | .op (.write buf) =>
    have hpend : r.shouldRetry = false := by simpa [next] using hnext
    replace h : r.write buf dt = .ok r' := h
    rw [ResponseWriter.write, if_neg (by simp [hpend]), ResponseWriter.ensureHeader,
      if_neg (by simp [hwrote]), writeHeader_final hpend hwrote not_informational_ok] at h
    obtain ⟨r₁, hhdr, h⟩ := ok_of_bind h
    cases ok.inj h
    have hallowed : Writer.bodyAllowed 200 = true := by decide
    split at hhdr
    · next hretry =>
      cases ok.inj hhdr
      simpa [copies, sends, Event.isFinal, Event.code, hretry, copyHeader_empty, bodyOf, hallowed]
        using write_of_none hclient buf
    · next hretry =>
      obtain ⟨hcommit, hsame⟩ := commit_of_none not_informational_ok hclient hhdr
      obtain ⟨hkept, hbody⟩ := write_body hcommit buf
      simp [copies, sends, Event.isFinal, Event.code, hretry, hkept, hbody, hsame, bodyOf]
  | .op .flush =>
    cases ok.inj h
    have hflush : r.client.flush = { r.client with committed := some (200, r.client.header) } := by
      rw [Writer.flush, Writer.commitOK, hclient]
    simp [ResponseWriter.flush, hflush, copies, sends, Event.isFinal, Event.code, copyHeader_empty,
      bodyOf]
  | .shouldRetry b => cases hnext

/-- A call that is not withheld leaves a committed status. -/
theorem exec_reaches (hwrote : r.written = false) (hnext : r.next r.shouldRetry e = none)
    (h : r.exec e = .ok r') : r'.client.committed ≠ none := by
  cases hclient : r.client.committed with
  | none =>
    rw [(exec_first hwrote hclient hnext h).1]
    exact some_ne_none _
  | some status =>
    rw [(exec_committed hclient h).1]
    exact some_ne_none _

theorem run_keeps_status (hclient : r.client.committed = some status)
    (h : r.run events = .ok r') : r'.client.committed = some status := by
  induction events generalizing r with
  | nil =>
    cases ok.inj h
    exact hclient
  | cons e events ih =>
    rw [run_cons] at h
    obtain ⟨r₁, hexec, hrun⟩ := ok_of_bind h
    exact ih (exec_committed hclient hexec).1 hrun

/-- The calls of an attempt that are all withheld: nothing changes at the client, and a
    retry is pending or not. -/
theorem run_withheld (hwrote : r.written = false)
    (h : events.foldlM r.next r.shouldRetry = some pending) :
    ∃ r', r.run events = .ok r' ∧ r'.client = r.client ∧ r'.shouldRetry = pending := by
  induction events generalizing r with
  | nil => exact ⟨r, rfl, rfl, some.inj h⟩
  | cons e events ih =>
    rw [List.foldlM_cons] at h
    obtain ⟨pending₁, hnext, hrest⟩ := bind_eq_some_iff.mp h
    obtain ⟨r₁, hexec, hpolicy, hclient, hwritten₁, rfl⟩ := exec_withheld hwrote hnext
    rw [← hpolicy] at hrest
    obtain ⟨r₂, hrun, hclient₂, hpend⟩ := ih hwritten₁ hrest
    refine ⟨r₂, ?_, hclient₂.trans hclient, hpend⟩
    rw [run_cons, hexec]
    exact hrun

/-- An attempt one of whose calls is not withheld leaves a committed status. -/
theorem run_reaches (hwrote : r.written = false)
    (hnext : ¬ r.Withheld r.shouldRetry events) (h : r.run events = .ok r') :
    r'.client.committed ≠ none := by
  induction events generalizing r with
  | nil => exact absurd rfl hnext
  | cons e events ih =>
    rw [run_cons] at h
    obtain ⟨r₁, hexec, hrun⟩ := ok_of_bind h
    cases hpend : r.next r.shouldRetry e with
    | none =>
      obtain ⟨status, hstat⟩ := ne_none_iff_exists'.mp (exec_reaches hwrote hpend hexec)
      rw [run_keeps_status hstat hrun]
      exact some_ne_none _
    | some pend =>
      obtain ⟨r₂, hexec₂, hpolicy, _, hwritten₂, rfl⟩ := exec_withheld hwrote hpend
      obtain rfl : r₂ = r₁ := ok.inj (hexec₂.symm.trans hexec)
      refine ih hwritten₂ ?_ hrun
      intro hrest
      apply hnext
      rw [Policy.Withheld, List.foldlM_cons, hpend, ← hpolicy]
      exact hrest

/-! ## No trace -/

/-- **No trace**: an attempt leaves the client's writer as it was exactly when all of its
    calls are withheld: it does not call `Flush`, each `Write` finds a retry pending, and
    each final status finds one or is to be retried. -/
theorem leaves_no_trace_iff (p : Policy) (client : Writer) (hclient : client.committed = none)
    (events : List Event) {r : ResponseWriter} (hrun : (new p client).run events = .ok r) :
    r.client = client ↔ p.Withheld false events := by
  constructor
  · intro hsame
    by_contra hreach
    have hcommit := run_reaches (r := new p client) rfl hreach hrun
    rw [hsame] at hcommit
    exact hcommit hclient
  · intro hwithheld
    obtain ⟨pend, hpend⟩ := isSome_iff_exists.mp hwithheld
    obtain ⟨r', hrun', hclient', _⟩ := run_withheld (r := new p client) rfl hpend
    obtain rfl : r' = r := ok.inj (hrun'.symm.trans hrun)
    exact hclient'

/-- An attempt to answer with a status. -/
def statusAt (elapsed code : ℤ) : Event where
  elapsed
  call := .op (.writeHeader code)

/-- Two attempts, with the statuses 5xx to retry for some time. -/
def twoAttempts (timeout : ℤ) : Config where
  attempts := 2
  statusCode := [(500, 599)]
  disableRetryOnNetworkError := true
  initialInterval := 0
  timeout
  retryNonIdempotentMethod := false

/-- An attempt that answers with a status at once, and returns later. -/
def answerWith (code returned : ℤ) : Attempt where
  events := [statusAt 0 code]
  returned
  asked := returned
  interval := 0

theorem unavailable_leaves_no_trace :
    ∃ r, (new ((twoAttempts 0).policy true 1) (fresh ∅)).run [statusAt 0 503] = .ok r ∧
      r.shouldRetry = true ∧ r.client = fresh ∅ :=
  ⟨_, rfl, rfl, (leaves_no_trace_iff ((twoAttempts 0).policy true 1) (fresh ∅) rfl
    [statusAt 0 503] rfl).mpr (by decide)⟩

/-- A handler that calls `Flush` before its status commits status 200, although it is tried
    again and answers with 404 then. -/
theorem flush_leaves_trace :
    let flushing : Attempt := { answerWith 503 0 with events := [⟨0, .op .flush⟩, statusAt 0 503] }
    (∃ r, (new ((twoAttempts 0).policy true 1) (fresh ∅)).run flushing.events = .ok r ∧
      r.shouldRetry = true ∧ r.client.committed = some (200, ∅)) ∧
    ∃ client, (twoAttempts 0).serveHTTP true none
        (fun n => if n = 1 then flushing else answerWith 404 0) (fresh ∅) = .ok (client, 2) ∧
      client.committed = some (200, ∅) :=
  ⟨⟨_, rfl, rfl, rfl⟩, _, rfl, rfl⟩

end Ingress.Retry
