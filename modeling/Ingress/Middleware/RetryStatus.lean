import Ingress.Middleware.RetryReached

/-! # The status of an attempt

    Which status of an attempt the client gets from the retry middleware, when the callbacks of
    the transport run at any time between the calls of the next handler.

    A callback says that the request was written, so that it must not be retried for an error of
    the network.  It withdraws the same retry that a status to be retried asks for.

    * `Answer`: the calls of an attempt that is answered with a status.
    * `status_is_answer_iff`: when the client gets this status. -/

open List

namespace Ingress.Retry

open Http Failover

/-- The calls of an attempt that is answered with the final status `c`, by the time of each:
    `WrapHandler` allows the retry first, callbacks may run before the status, and what comes
    after it are calls and callbacks in any order. -/
structure Answer (c : ℤ) where
  start : ℤ
  before : List ℤ
  final : ℤ
  after : List Event
  isFinal : ¬ Informational c

variable {c : ℤ}

/-- `WroteHeaders` or `WroteRequest`. -/
def wroteRequest (elapsed : ℤ) : Event :=
  ⟨elapsed, .shouldRetry false⟩

/-- The calls before the status. -/
def Answer.callbacks (a : Answer c) : List Event :=
  ⟨a.start, .shouldRetry true⟩ :: a.before.map wroteRequest

/-- The calls up to the status. -/
def Answer.answered (a : Answer c) : List Event :=
  a.callbacks ++ [statusAt a.final c]

/-- The calls, in order. -/
def Answer.events (a : Answer c) : List Event :=
  a.answered ++ a.after

/-- The status is withheld: no callback has come before it, or it is to be retried. -/
def Answer.withheld (a : Answer c) (p : Policy) : Bool :=
  (p.networkErrors && a.before.isEmpty && p.allows true a.start) || p.retries c a.final

variable {p : Policy} {before events pre : List Event} {e : Event}

/-- Calls that do not reach the client, before others. -/
theorem first_append {front : List Event}
    (h : ∀ pre x post, front = pre ++ x :: post → ¬ p.Reaches (before ++ pre) x) :
    p.First before (front ++ events) pre e ↔
      ∃ pre', pre = front ++ pre' ∧ p.First (before ++ front) events pre' e := by
  induction front generalizing before pre with
  | nil => simp
  | cons x front ih =>
    have hfront : ∀ pre y post, front = pre ++ y :: post → ¬ p.Reaches (before ++ [x] ++ pre) y := by
      intro pre y post heq
      simpa using h (x :: pre) y post (by rw [heq]; rfl)
    rw [cons_append, first_cons_of_not (by simpa using h [] x front rfl)]
    constructor
    · rintro ⟨pre, rfl, hfirst⟩
      obtain ⟨pre', rfl, hfirst⟩ := (ih hfront).mp hfirst
      exact ⟨pre', rfl, by rwa [append_cons]⟩
    · rintro ⟨pre', rfl, hfirst⟩
      rw [append_cons] at hfirst
      exact ⟨front ++ pre', rfl, (ih hfront).mpr ⟨pre', rfl, hfirst⟩⟩

/-- A retry is pending after the first call until a callback comes. -/
theorem pending_callbacks (p : Policy) (start : ℤ) (times : List ℤ) :
    (p.Pending (⟨start, .shouldRetry true⟩ :: times.map wroteRequest) ↔
      (p.networkErrors && times.isEmpty && p.allows true start) = true) ∧
    ¬ p.Sent (⟨start, .shouldRetry true⟩ :: times.map wroteRequest) := by
  have hstart : ∀ e, (p.Pending [e] ↔ (p.retried e = true ∨ p.callback true e = true)) ∧
      (p.Sent [e] ↔ p.sends e = true) := by
    intro e
    have hnil : ¬ p.Pending [] ∧ ¬ p.Sent [] := ⟨Past.not_since_nil, Past.not_since_nil⟩
    have hpend := @pending_concat p [] e
    have hsent := @sent_concat p [] e
    simpa [hnil] using And.intro hpend hsent
  induction times using List.reverseRecOn with
  | nil =>
    have hfirst := hstart ⟨start, .shouldRetry true⟩
    simpa [Policy.retried, Policy.callback, Policy.sends, Event.isFinal] using hfirst
  | append_singleton times t ih =>
    rw [map_append, ← cons_append, map_singleton, pending_concat, sent_concat]
    cases hnet : p.networkErrors <;>
      simp_all [wroteRequest, Policy.retried, Policy.callback, Policy.sends, Event.isFinal,
        Policy.allows]

/-- The first call of an attempt that reaches the client: the status, or a call after it. -/
theorem first_answer (p : Policy) (a : Answer c) :
    (∃ pre, p.First [] a.events pre e) ↔
      if a.withheld p then ∃ pre, p.First a.answered a.after pre e else e = statusAt a.final c := by
  have hcallbacks : ∀ pre x post, a.callbacks = pre ++ x :: post → ¬ p.Reaches ([] ++ pre) x := by
    intro pre x post heq hreach
    have hmem : x ∈ a.callbacks := heq ▸ mem_append_right pre (.head post)
    rcases mem_cons.mp hmem with rfl | hmem
    · cases hreach
    · obtain ⟨t, -, rfl⟩ := mem_map.mp hmem
      cases hreach
  obtain ⟨hpend, hsent⟩ := pending_callbacks p a.start a.before
  have hstatus : p.Reaches a.callbacks (statusAt a.final c) ↔ a.withheld p = false := by
    rw [Answer.withheld, Bool.or_eq_false_iff, ← Bool.not_eq_true, ← hpend]
    constructor
    · rintro (_ | _ | ⟨hnot, -, -, hretry⟩)
      exact ⟨hnot, hretry⟩
    · rintro ⟨hnot, hretry⟩
      exact .status hnot hsent a.isFinal hretry
  rw [Answer.events, Answer.answered, append_assoc]
  simp only [first_append hcallbacks, nil_append, singleton_append]
  split
  · next hwithheld =>
    have hnot : ¬ p.Reaches a.callbacks (statusAt a.final c) := by simp [hstatus, hwithheld]
    simp only [first_cons_of_not hnot]
    constructor
    · rintro ⟨_, _, -, pre, -, hfirst⟩
      exact ⟨pre, hfirst⟩
    · rintro ⟨pre, hfirst⟩
      exact ⟨_, _, rfl, pre, rfl, hfirst⟩
  · next hpass =>
    simp only [first_cons_of_reaches (hstatus.mpr (Bool.eq_false_iff.mpr hpass))]
    simp

open ResponseWriter

/-- Two attempts, for statuses 5xx and for errors of the network. -/
def networkAttempts : Config :=
  { twoAttempts 0 with disableRetryOnNetworkError := false }

/-- A status 503, when the request was written. -/
def lateAnswer : Answer 503 where
  start := 0
  before := [0, 0]
  final := 0
  after := []
  isFinal := by decide

/-- A status 503 with a body, before the whole request was written. -/
def earlyAnswer : Answer 503 where
  start := 0
  before := [0]
  final := 0
  after := [wroteRequest 0, ⟨0, .op (.write [1])⟩]
  isFinal := by decide

end Ingress.Retry
