import Ingress.HealthCheck.Checker

/-! # Probes of TCP Servers

    `ServiceTCPHealthChecker` (`pkg/healthcheck`): a probe connects to a server, sends a payload
    and compares what it reads with the expected response.

    * `verdict_iff`: the verdict depends on the timeout and on what the first read has. -/

open List

namespace Ingress.HealthCheck.Tcp

/-- `TCPServerHealthCheck`; the timeout is in nanoseconds. -/
structure Config where
  timeout : ℤ
  send : List UInt8
  expect : List UInt8

structure Checker where
  config : Config
  timeout : ℤ

/-- `maxPayloadSize`. -/
def maxPayloadSize : ℕ := 65535

/-- The payload, or none when it is too large. -/
def limitPayload (payload : List UInt8) : List UInt8 :=
  if payload ≠ [] ∧ payload.length > maxPayloadSize then [] else payload

/-- `NewServiceTCPHealthChecker`; the default timeout is of five seconds. -/
def newServiceTCPHealthChecker (config : Config) : Checker where
  config := ⟨config.timeout, limitPayload config.send, limitPayload config.expect⟩
  timeout := if config.timeout ≤ 0 then 5000000000 else config.timeout

/-- `conn.Read` into a buffer of `n` zeros.  The reads are what the server sends, in the pieces in
    which it arrives; when it sends nothing the deadline passes. -/
def read (n : ℕ) : List (List UInt8) → Except Err (List UInt8)
  | [] => .error .deadlineExceeded
  | first :: _ => .ok (first.take n ++ replicate (n - first.length) 0)

/-- `executeHealthCheck` of a server that accepts connections at once.  The deadline of the dial is
    that of the configuration, not that of the checker. -/
def Checker.executeHealthCheck (thc : Checker) (addr : String) (reads : List (List UInt8)) :
    Option Err :=
  if thc.config.timeout ≤ 0 then some (.wrap s!"connecting to {addr}" .deadlineExceeded)
  else if thc.config.expect = [] then none
  else
    match read thc.config.expect.length reads with
    | .error err => some (.wrap s!"reading from {addr}" err)
    | .ok buf =>
      if buf ≠ thc.config.expect then some (.text "unexpected heath check response") else none

/-- Only zeros are expected after what was read. -/
abbrev ZerosAfter (first expect : List UInt8) : Prop :=
  (expect.drop first.length).all (· = 0)

variable {first expect : List UInt8}

theorem buf_eq_iff :
    first.take expect.length ++ replicate (expect.length - first.length) 0 = expect ↔
      (first <+: expect ∨ expect <+: first) ∧ ZerosAfter first expect := by
  simp only [ZerosAfter, all_eq_true, decide_eq_true_eq]
  rcases le_total expect.length first.length with hle | hle
  · rw [Nat.sub_eq_zero_of_le hle, replicate_zero, append_nil, drop_eq_nil_of_le hle, eq_comm,
      ← prefix_iff_eq_take]
    refine ⟨fun h => ⟨.inr h, by simp⟩, fun ⟨h, _⟩ => h.elim (fun h => ?_) id⟩
    rw [h.eq_of_length_le hle]
  · rw [take_of_length_le hle]
    constructor
    · intro h
      rw [← h, drop_left]
      exact ⟨.inl (prefix_append ..), fun b => eq_of_mem_replicate⟩
    · rintro ⟨h, hzeros⟩
      obtain ⟨zeros, rfl⟩ : first <+: expect := h.elim id fun h => by rw [h.eq_of_length_le hle]
      rw [drop_left] at hzeros
      rw [length_append, Nat.add_sub_cancel_left, ← eq_replicate_of_mem hzeros]

variable {addr : String} {config : Config}

theorem executeHealthCheck_cons {thc : Checker} {rest : List (List UInt8)}
    (h : thc.config.expect ≠ []) : thc.executeHealthCheck addr (first :: rest) = none ↔
      0 < thc.config.timeout ∧ (first <+: thc.config.expect ∨ thc.config.expect <+: first) ∧
        ZerosAfter first thc.config.expect := by
  rw [← buf_eq_iff]
  simp only [Checker.executeHealthCheck, if_neg h, read]
  by_cases ht : thc.config.timeout ≤ 0
  · simp [ht]
  · simp [ht, not_le.mp ht]

/-- **What decides a probe**: the bytes that the server sends, when a timeout is configured and the
    first read has all that is expected.  Zeros that it does not have are taken as read. -/
theorem verdict_iff {reads : List (List UInt8)} (h : limitPayload config.expect ≠ []) :
    ((newServiceTCPHealthChecker config).executeHealthCheck addr reads = none ↔
      limitPayload config.expect <+: reads.flatten) ↔
    ∀ first ∈ reads.head?,
      (limitPayload config.expect <+: reads.flatten →
        0 < config.timeout ∧ ZerosAfter first (limitPayload config.expect)) ∧
      (0 < config.timeout → first <+: limitPayload config.expect →
        ZerosAfter first (limitPayload config.expect) →
        limitPayload config.expect <+: reads.flatten) := by
  cases reads with
  | nil =>
    by_cases ht : config.timeout ≤ 0 <;>
      simp [Checker.executeHealthCheck, newServiceTCPHealthChecker, read, h, ht]
  | cons first rest =>
    rw [executeHealthCheck_cons h]
    simp only [head?_cons, Option.mem_some_iff, forall_eq', flatten_cons, newServiceTCPHealthChecker]
    have hfirst := prefix_append first rest.flatten
    have hboth : limitPayload config.expect <+: _ → _ := prefix_or_prefix_of_prefix hfirst
    have hwhole : limitPayload config.expect <+: first → _ := fun h => h.trans hfirst
    tauto

/-- A response of two bytes is expected within a second. -/
def pong : Config := ⟨1000000000, [], [80, 79]⟩

theorem pong_whole : (newServiceTCPHealthChecker pong).executeHealthCheck "" [[80, 79]] = none :=
  (verdict_iff (by decide)).mpr (by rintro _ ⟨⟩; decide) |>.mpr (by decide)

/-- The same bytes in two reads are refused. -/
theorem pong_cut : ¬ ((newServiceTCPHealthChecker pong).executeHealthCheck "" [[80], [79]] = none ↔
    limitPayload pong.expect <+: [[80], [79]].flatten) := by
  decide

end Ingress.HealthCheck.Tcp
