import Ingress.Framework.Outcome
import Ingress.Http.ResponseWriter
import Ingress.LoadBalancer.Failover

/-! # Failover Responses

    A failover with error statuses (`pkg/server/service/loadbalancer/failover`)
    gives its main handler a response writer of its own.  When the first final
    status of the main handler is one of the error statuses, the response is
    meant to be dropped and the request goes to the fallback handler.

    * `ResponseWriter`, `serveHTTP`: the code.
    * `run_fallback`, `run_no_fallback`: what a main handler leaves behind.
    * `leavesNoTrace_iff`: when a dropped response leaves no trace.
    * `MapsAgree`: when the private header map makes no difference.
    * `transparent_iff`: which responses are passed on unchanged. -/

namespace Ingress.Failover

open Http Outcome

/-! ## The code -/

abbrev HTTPCodeRanges := List (Int × Int)

def HTTPCodeRanges.Contains (ranges : HTTPCodeRanges) (statusCode : Int) : Prop :=
  ∃ block ∈ ranges, block.1 ≤ statusCode ∧ statusCode ≤ block.2

instance (ranges : HTTPCodeRanges) (statusCode : Int) :
    Decidable (HTTPCodeRanges.Contains ranges statusCode) :=
  inferInstanceAs (Decidable (∃ block ∈ ranges, _))

/-- The writer of the main handler, over the writer of the client. -/
structure ResponseWriter where
  client : Writer
  needFallback : Bool
  written : Bool
  header : Header
  statusCodeRange : HTTPCodeRanges

namespace ResponseWriter

/-- The writer that `ServeHTTP` gives the main handler. -/
def new (client : Writer) (statusCodeRange : HTTPCodeRanges) : ResponseWriter where
  client
  needFallback := false
  written := false
  header := ∅
  statusCodeRange

def writeHeader (r : ResponseWriter) (statusCode : Int) : Except Panic ResponseWriter :=
  if Informational statusCode then .ok { r with header := ∅ }
  else if r.written then .ok r
  else if r.statusCodeRange.Contains statusCode then
    .ok { r with written := true, needFallback := true }
  else do
    let copied := { r.client with header := r.client.header.addAll r.header }
    let client ← copied.writeHeader statusCode
    .ok { r with written := true, needFallback := false, client }

def write (r : ResponseWriter) (b : List UInt8) : Except Panic ResponseWriter := do
  let r ← if r.written then .ok r else r.writeHeader 200
  if r.needFallback then .ok r -- the response body is discarded
  else .ok { r with client := r.client.write b }

def flush (r : ResponseWriter) : ResponseWriter :=
  { r with client := r.client.flush }

/-- One call. -/
def exec (r : ResponseWriter) : Op → Except Panic ResponseWriter
  | .header edit => .ok { r with header := edit r.header }
  | .writeHeader statusCode => r.writeHeader statusCode
  | .write b => r.write b
  | .flush => .ok r.flush

/-- The main handler. -/
def run (r : ResponseWriter) (handler : List Op) : Except Panic ResponseWriter :=
  handler.foldlM exec r

end ResponseWriter

/-- What `NewReusableRequest` fails with. -/
inductive BodyError where
  | bodyTooLarge
  | other
  deriving DecidableEq, Repr

/-- The end of `ServeHTTP`. -/
def serveFallback (f : Failover) (fallbackHandler : List Op) (w : Writer) : Except Panic Writer :=
  if f.fallbackStatus then w.run fallbackHandler
  else w.run (httpError "Service Unavailable" 503)

open ResponseWriter

/-- `ServeHTTP`.  `body` is the outcome of `NewReusableRequest`. -/
def serveHTTP (f : Failover) (statusCode : HTTPCodeRanges) (body : Option BodyError)
    (handler fallbackHandler : List Op) (w : Writer) : Except Panic Writer :=
  if f.handlerStatus then
    if statusCode = [] then w.run handler
    else
      match body with
      | some .other => w.run (httpError "Internal Server Error" 500)
      | some .bodyTooLarge => w.run (httpError "Request body too large" 413)
      | none => do
        let rw ← (ResponseWriter.new w statusCode).run handler
        if !rw.needFallback then .ok rw.client
        else serveFallback f fallbackHandler rw.client
  else serveFallback f fallbackHandler w

/-! ## What a main handler leaves behind -/

/-- The first final status of a handler; a `Write` stands for status 200. -/
def firstFinal : List Op → Option Int
  | [] => none
  | .writeHeader statusCode :: ops =>
    if Informational statusCode then firstFinal ops else some statusCode
  | .write _ :: _ => some 200
  | .header _ :: ops => firstFinal ops
  | .flush :: ops => firstFinal ops

/-- The handler calls `Flush`. -/
def flushes : List Op → Bool
  | [] => false
  | .flush :: _ => true
  | _ :: ops => flushes ops

/-- The handler comes to an error status. -/
def Fails (ranges : HTTPCodeRanges) (handler : List Op) : Prop :=
  ∃ statusCode ∈ firstFinal handler, ranges.Contains statusCode

/-- The client's writer after the calls of a handler whose response is dropped. -/
def dropped (w : Writer) (handler : List Op) : Writer :=
  if flushes handler then w.flush else w

variable {r r' : ResponseWriter}

theorem dropped_cons (w : Writer) (op : Op) (ops : List Op) :
    dropped (dropped w [op]) ops = dropped w (op :: ops) := by
  cases op with
  | flush => simp [dropped, flushes]
  | _ => rfl

theorem ResponseWriter.run_cons (r : ResponseWriter) (op : Op) (ops : List Op) :
    r.run (op :: ops) = r.exec op >>= fun r => r.run ops := by
  simp [run]

theorem ResponseWriter.run_of_exec (op : Op) {ops : List Op} (h : r.exec op = .ok r') :
    r.run (op :: ops) = r'.run ops := by
  rw [run_cons, h]
  rfl

/-! ### The four ways of `WriteHeader` -/

variable {statusCode : Int}

theorem writeHeader_informational (h : Informational statusCode) :
    r.writeHeader statusCode = .ok { r with header := ∅ } := by
  unfold writeHeader
  rw [if_pos h]

theorem writeHeader_written (hwrote : r.written = true) (code : Int) :
    ∃ header, r.writeHeader code = .ok { r with header } := by
  unfold writeHeader
  rw [if_pos hwrote]
  split <;> exact ⟨_, rfl⟩

theorem writeHeader_fails (h : ¬ Informational statusCode)
    (hwrote : r.written = false) (hfails : r.statusCodeRange.Contains statusCode) :
    r.writeHeader statusCode = .ok { r with written := true, needFallback := true } := by
  unfold writeHeader
  rw [if_neg h, if_neg (by simp [hwrote]), if_pos hfails]

theorem writeHeader_passes (h : ¬ Informational statusCode)
    (hwrote : r.written = false) (hpass : ¬ r.statusCodeRange.Contains statusCode)
    (hok : r.writeHeader statusCode = .ok r') : r'.written = true ∧ r'.needFallback = false := by
  unfold writeHeader at hok
  rw [if_neg h, if_neg (by simp [hwrote]), if_neg hpass] at hok
  obtain ⟨client, -, hok⟩ := ok_of_bind hok
  cases hok
  exact ⟨rfl, rfl⟩

theorem write_written (hwrote : r.written = true) (b : List UInt8) :
    r.write b = if r.needFallback then .ok r else .ok { r with client := r.client.write b } := by
  rw [ResponseWriter.write, if_pos hwrote]
  rfl

/-! ### A response that is dropped -/

/-- Once the response is dropped, only `Flush` reaches the client. -/
theorem exec_of_needFallback (hwrote : r.written = true) (hneed : r.needFallback = true) (op : Op) :
    ∃ r', r.exec op = .ok r' ∧ r'.written = true ∧ r'.needFallback = true ∧
      r'.client = dropped r.client [op] := by
  cases op with
  | header edit | flush => exact ⟨_, rfl, hwrote, hneed, rfl⟩
  | writeHeader code =>
    obtain ⟨header, hhdr⟩ := writeHeader_written hwrote code
    exact ⟨_, hhdr, hwrote, hneed, rfl⟩
  | write b => exact ⟨r, (write_written hwrote b).trans (if_pos hneed), hwrote, hneed, rfl⟩

theorem run_of_needFallback (hwrote : r.written = true) (hneed : r.needFallback = true)
    (ops : List Op) :
    ∃ r', r.run ops = .ok r' ∧ r'.needFallback = true ∧ r'.client = dropped r.client ops := by
  induction ops generalizing r with
  | nil => exact ⟨r, rfl, hneed, rfl⟩
  | cons op ops ih =>
    obtain ⟨r₁, hexec, hwritten₁, hneed₁, hclient₁⟩ := exec_of_needFallback hwrote hneed op
    obtain ⟨r₂, hrun, hneed₂, hclient₂⟩ := ih hwritten₁ hneed₁
    refine ⟨r₂, (run_of_exec _ hexec).trans hrun, hneed₂, ?_⟩
    rw [hclient₂, hclient₁, dropped_cons]

/-! ### A response that is passed on -/

variable {op : Op}

/-- A response that is passed on is never dropped. -/
theorem exec_of_written (hwrote : r.written = true) (hneed : r.needFallback = false)
    (h : r.exec op = .ok r') : r'.written = true ∧ r'.needFallback = false := by
  cases op with
  | header edit | flush => cases h; exact ⟨hwrote, hneed⟩
  | writeHeader code =>
    obtain ⟨header, hhdr⟩ := writeHeader_written hwrote code
    cases hhdr.symm.trans h
    exact ⟨hwrote, hneed⟩
  | write b =>
    cases ((write_written hwrote b).trans (if_neg (by simp [hneed]))).symm.trans h
    exact ⟨hwrote, hneed⟩

variable {ops : List Op}

theorem run_of_written (hwrote : r.written = true) (hneed : r.needFallback = false)
    (h : r.run ops = .ok r') : r'.needFallback = false := by
  induction ops generalizing r with
  | nil => cases h; exact hneed
  | cons op ops ih =>
    rw [run_cons] at h
    obtain ⟨r₁, hexec, h⟩ := ok_of_bind h
    obtain ⟨hwritten₁, hneed₁⟩ := exec_of_written hwrote hneed hexec
    exact ih hwritten₁ hneed₁ h

/-! ### The first final status decides -/

theorem firstFinal_cons (op : Op) (ops : List Op) :
    firstFinal (op :: ops) = (firstFinal [op]).or (firstFinal ops) := by
  cases op with
  | writeHeader code =>
    simp only [firstFinal]
    split <;> rfl
  | _ => rfl

variable {code : Int}

theorem firstFinal_writeHeader {statusCode : Int}
    (h : firstFinal [.writeHeader statusCode] = some code) :
    ¬ Informational statusCode ∧ statusCode = code := by
  by_cases hinf : Informational statusCode
  · simp [firstFinal, hinf] at h
  · simp [firstFinal, hinf] at h
    exact ⟨hinf, h⟩

theorem not_informational_ok : ¬ Informational 200 := by decide

/-- A call without a final status decides nothing. -/
theorem exec_undecided (h : firstFinal [op] = none) :
    ∃ r', r.exec op = .ok r' ∧ r'.written = r.written ∧ r'.needFallback = r.needFallback ∧
      r'.statusCodeRange = r.statusCodeRange ∧ r'.client = dropped r.client [op] := by
  cases op with
  | header edit | flush => exact ⟨_, rfl, rfl, rfl, rfl, rfl⟩
  | writeHeader code =>
    by_cases hinf : Informational code
    · exact ⟨_, writeHeader_informational hinf, rfl, rfl, rfl, rfl⟩
    · simp [firstFinal, hinf] at h
  | write b => cases h

/-- An error status drops the response. -/
theorem exec_fails (hwrote : r.written = false)
    (h : firstFinal [op] = some code) (hfails : r.statusCodeRange.Contains code) :
    ∃ r', r.exec op = .ok r' ∧ r'.written = true ∧ r'.needFallback = true ∧
      r'.client = dropped r.client [op] := by
  cases op with
  | header edit => cases h
  | writeHeader statusCode =>
    obtain ⟨hinf, rfl⟩ := firstFinal_writeHeader h
    exact ⟨_, writeHeader_fails hinf hwrote hfails, rfl, rfl, rfl⟩
  | write b =>
    obtain rfl : 200 = code := Option.some.inj h
    refine ⟨{ r with written := true, needFallback := true }, ?_, rfl, rfl, rfl⟩
    simp [ResponseWriter.exec, ResponseWriter.write, hwrote,
      writeHeader_fails not_informational_ok hwrote hfails, bind, Except.bind]
  | flush => cases h

/-- Another status passes it on. -/
theorem exec_passes (hwrote : r.written = false)
    (h : firstFinal [op] = some code) (hpass : ¬ r.statusCodeRange.Contains code)
    (hexec : r.exec op = .ok r') : r'.written = true ∧ r'.needFallback = false := by
  cases op with
  | header edit => cases h
  | writeHeader statusCode =>
    obtain ⟨hinf, rfl⟩ := firstFinal_writeHeader h
    exact writeHeader_passes hinf hwrote hpass hexec
  | write b =>
    obtain rfl : 200 = code := Option.some.inj h
    rw [ResponseWriter.exec, ResponseWriter.write, if_neg (by simp [hwrote])] at hexec
    obtain ⟨r₁, hhdr, hexec⟩ := ok_of_bind hexec
    obtain ⟨hwritten₁, hneed₁⟩ := writeHeader_passes not_informational_ok hwrote hpass hhdr
    simp only [hneed₁, Bool.false_eq_true, if_false] at hexec
    cases hexec
    exact ⟨hwritten₁, rfl⟩
  | flush => cases h

/-- **A handler that fails**: it returns, its response is dropped, and the client
    has seen its `Flush` calls. -/
theorem run_fallback (hwrote : r.written = false) (hfails : Fails r.statusCodeRange ops) :
    ∃ r', r.run ops = .ok r' ∧ r'.needFallback = true ∧ r'.client = dropped r.client ops := by
  induction ops generalizing r with
  | nil => obtain ⟨_, h, _⟩ := hfails; cases h
  | cons op ops ih =>
    obtain ⟨code, hcode, hcont⟩ := hfails
    rw [firstFinal_cons] at hcode
    -- either this call decides, or the calls after it do
    cases hop : firstFinal [op] with
    | none =>
      rw [hop] at hcode
      obtain ⟨r₁, hexec, hw, _, hrange, hclient⟩ := exec_undecided (r := r) hop
      rw [← hrange] at hcont
      obtain ⟨r₂, hrun, hneed, hclient₂⟩ := ih (hw.trans hwrote) ⟨code, hcode, hcont⟩
      refine ⟨r₂, (run_of_exec _ hexec).trans hrun, hneed, ?_⟩
      rw [hclient₂, hclient, dropped_cons]
    | some c =>
      rw [hop] at hcode
      obtain rfl : c = code := Option.some.inj hcode
      obtain ⟨r₁, hexec, hw, hneed, hclient⟩ := exec_fails hwrote hop hcont
      obtain ⟨r₂, hrun, hneed₂, hclient₂⟩ := run_of_needFallback hw hneed ops
      refine ⟨r₂, (run_of_exec _ hexec).trans hrun, hneed₂, ?_⟩
      rw [hclient₂, hclient, dropped_cons]

/-- **The other handlers**: if they return, their response was passed on. -/
theorem run_no_fallback (hwrote : r.written = false)
    (hneed : r.needFallback = false) (hpass : ¬ Fails r.statusCodeRange ops)
    (hrun : r.run ops = .ok r') : r'.needFallback = false := by
  induction ops generalizing r with
  | nil => cases hrun; exact hneed
  | cons op ops ih =>
    unfold Fails at hpass
    rw [firstFinal_cons] at hpass
    rw [run_cons] at hrun
    obtain ⟨r₁, hexec, hrun⟩ := ok_of_bind hrun
    cases hop : firstFinal [op] with
    | none =>
      obtain ⟨r₂, hexec₂, hw, hn, hrange, _⟩ := exec_undecided (r := r) hop
      obtain rfl : r₂ = r₁ := Except.ok.inj (hexec₂.symm.trans hexec)
      rw [hop, ← hrange] at hpass
      exact ih (hw.trans hwrote) (hn.trans hneed) hpass hrun
    | some c =>
      rw [hop] at hpass
      have hc : ¬ r.statusCodeRange.Contains c := fun h => hpass ⟨c, rfl, h⟩
      obtain ⟨hw, hn⟩ := exec_passes hwrote hop hc hexec
      exact run_of_written hw hn hrun

/-! ## No trace -/

variable {ranges : HTTPCodeRanges} {header : Header} {handler : List Op}

/-- When the response of the main handler is dropped, nothing is committed or
    written to the client, its header map is as before, and the response is the
    one of the fallback handler. -/
def LeavesNoTrace (ranges : HTTPCodeRanges) (header : Header) (handler : List Op) : Prop :=
  ∀ rw, (ResponseWriter.new (fresh header) ranges).run handler = .ok rw →
    rw.needFallback = true →
    rw.client.committed = none ∧ rw.client.body = [] ∧ rw.client.header = header ∧
    ∀ fallbackHandler,
      serveHTTP Failover.new ranges none handler fallbackHandler (fresh header) =
        (fresh header).run fallbackHandler

/-- A failed request goes to the fallback handler, on the writer that the main
    handler left. -/
theorem serveHTTP_fails (hfails : Fails ranges handler) (fallbackHandler : List Op) :
    serveHTTP Failover.new ranges none handler fallbackHandler (fresh header) =
      (dropped (fresh header) handler).run fallbackHandler := by
  obtain ⟨rw, hrun, hneed, hclient⟩ :=
    run_fallback (r := .new (fresh header) ranges) rfl hfails
  -- without error statuses nothing would fail
  have hranges : ranges ≠ [] := by
    obtain ⟨code, _, block, hblock, _⟩ := hfails
    exact List.ne_nil_of_mem hblock
  simp only [serveHTTP, Failover.new, if_true, if_neg hranges, hrun, bind, Except.bind, hneed,
    Bool.not_true, hclient, serveFallback]
  rfl

/-- **No trace**: a main handler leaves no trace exactly when it never calls
    `Flush` or does not come to an error status. -/
theorem leavesNoTrace_iff (ranges : HTTPCodeRanges) (header : Header) (handler : List Op) :
    LeavesNoTrace ranges header handler ↔ flushes handler = false ∨ ¬ Fails ranges handler := by
  by_cases hfails : Fails ranges handler
  · obtain ⟨rw, hrun, hneed, hclient⟩ :=
      run_fallback (r := .new (fresh header) ranges) rfl hfails
    constructor
    · intro htrace
      obtain ⟨hcommit, _⟩ := htrace rw hrun hneed
      refine .inl ?_
      -- a flush has committed a status, and nothing takes that back
      by_contra hflush
      rw [hclient, dropped, if_pos (by simpa using hflush)] at hcommit
      exact Writer.flush_committed _ hcommit
    · intro hcond rw' hrun' _
      have hflush : flushes handler = false := hcond.resolve_right (not_not.mpr hfails)
      have hfresh : dropped (fresh header) handler = fresh header := by simp [dropped, hflush]
      obtain rfl : rw = rw' := Except.ok.inj (hrun.symm.trans hrun')
      rw [hclient]
      simp only [ResponseWriter.new, hfresh]
      exact ⟨rfl, rfl, rfl, fun fallback => by rw [serveHTTP_fails hfails, hfresh]⟩
  · refine iff_of_true ?_ (.inr hfails)
    intro rw hrun hneed
    rw [run_no_fallback (r := ResponseWriter.new (fresh header) ranges) rfl rfl hfails hrun]
      at hneed
    cases hneed

/-- A main handler that answers 503 and flushes. -/
def flushed503 : List Op :=
  [.writeHeader 503, .flush]

/-- The flush commits status 200 to the client, and the response of the fallback
    handler is lost under it: a fallback that answers 404 is answered 200. -/
theorem flushed503_traced :
    ∃ w, serveHTTP Failover.new [(500, 599)] none flushed503 [.writeHeader 404] (fresh ∅) =
        .ok w ∧
      w.committed = some (200, ∅) ∧ ¬ LeavesNoTrace [(500, 599)] ∅ flushed503 := by
  have hfails : Fails [(500, 599)] flushed503 := ⟨503, by decide, by decide⟩
  refine ⟨(fresh ∅).flush, ?_, rfl, ?_⟩
  · rfl
  · intro htrace
    obtain ⟨hcommit, _⟩ := htrace _ rfl rfl
    cases hcommit

/-! ## Transparency -/

/-- Two header maps with the same values for every key. -/
def SameHeader (h h' : Header) : Prop :=
  ∀ key, h.lookup key = h'.lookup key

/-- Two writers give the client the same response when the handler returns: status, header
    and body, and the header map at the end, which the trailers are taken from. -/
def SameResponse (w w' : Writer) : Prop :=
  ∃ statusCode h h', w.commitOK.committed = some (statusCode, h) ∧
    w'.commitOK.committed = some (statusCode, h') ∧ SameHeader h h' ∧
    SameHeader w.header w'.header ∧ w.body = w'.body

/-- Called through the writer `r` and directly on `w`, the handler comes to the same panic
    or gives the same response. -/
def AnswersAlike (r : ResponseWriter) (w : Writer) (handler : List Op) : Prop :=
  (∃ e, r.run handler = .error e ∧ w.run handler = .error e) ∨
    ∃ r' w', r.run handler = .ok r' ∧ w.run handler = .ok w' ∧ SameResponse r'.client w'

open Header

/-- The map of a handler after all of its edits. -/
def edited (h : Header) : List Op → Header
  | [] => h
  | .header edit :: ops => edited (edit h) ops
  | _ :: ops => edited h ops

/-- What the first answer copies from the private map to the client. -/
def copied (private_ : Header) : List Op → Header
  | [] => ∅
  | .header edit :: ops => copied (edit private_) ops
  | .writeHeader statusCode :: ops =>
    if Informational statusCode then copied ∅ ops else addAll ∅ private_
  | .write _ :: _ => addAll ∅ private_
  | .flush :: ops => copied private_ ops

/-- The maps agree when they are sent, and at the end.  `private_` has the edits since the last
    response 1xx, and `h` all of them.  The private map is copied by `Add` when the handler
    answers; a handler that flushes before sends an empty map, and one that never answers too. -/
def MapsAgree (private_ h : Header) : List Op → Prop
  | [] => SameHeader ∅ h
  | .header edit :: ops => MapsAgree (edit private_) (edit h) ops
  | .writeHeader statusCode :: ops =>
    if Informational statusCode then MapsAgree ∅ h ops
    else (statusCode < 100 ∨ 999 < statusCode) ∨
      SameHeader (addAll ∅ private_) h ∧ SameHeader (addAll ∅ private_) (edited h ops)
  | .write _ :: ops =>
    SameHeader (addAll ∅ private_) h ∧ SameHeader (addAll ∅ private_) (edited h ops)
  | .flush :: ops => SameHeader ∅ h ∧ SameHeader (copied private_ ops) (edited h ops)

/-- Both writers have committed the same status and written the same body. -/
structure Paired (r : ResponseWriter) (w : Writer) (code : Int) (g h : Header) : Prop where
  needFallback : r.needFallback = false
  through : r.client.committed = some (code, g)
  direct : w.committed = some (code, h)
  body : r.client.body = w.body

section
variable {w : Writer} {g h : Header}

theorem run_direct {w' : Writer} (op : Op) (hexec : w.exec op = .ok w') (ops : List Op) :
    w.run (op :: ops) = w'.run ops := by
  rw [Writer.run, List.foldlM_cons, hexec]
  rfl

theorem Paired.write (hp : Paired r w code g h) (b : List UInt8) :
    Paired { r with client := r.client.write b } (w.write b) code g h ∧
      (r.client.write b).header = r.client.header ∧ (w.write b).header = w.header := by
  have hwrite : ∀ (w : Writer) (h : Header), w.committed = some (code, h) →
      (w.write b).committed = some (code, h) ∧ (w.write b).header = w.header ∧
        (w.write b).body = w.body ++ if Writer.bodyAllowed code then b else [] := by
    intro w h hc
    simp only [Writer.write, Writer.commitOK, hc]
    split <;> simp [hc]
  obtain ⟨hthrough, hhdr, hbody⟩ := hwrite _ _ hp.through
  obtain ⟨hdirect, hhdr', hbody'⟩ := hwrite _ _ hp.direct
  exact ⟨⟨hp.needFallback, hthrough, hdirect, by rw [hbody, hbody', hp.body]⟩, hhdr, hhdr'⟩

theorem Paired.flush (hp : Paired r w code g h) : r.flush = r ∧ w.flush = w := by
  simp [ResponseWriter.flush, Writer.flush, Writer.commitOK, hp.through, hp.direct]

/-- After the answer the map of the client stays, and that of the handler does not. -/
theorem Paired.run_written (hp : Paired r w code g h) (hwrote : r.written = true) (ops : List Op) :
    ∃ r' w', r.run ops = .ok r' ∧ w.run ops = .ok w' ∧ Paired r' w' code g h ∧
      r'.client.header = r.client.header ∧ w'.header = edited w.header ops := by
  induction ops generalizing r w with
  | nil => exact ⟨r, w, rfl, rfl, hp, rfl, rfl⟩
  | cons op ops ih =>
    cases op with
    | header edit =>
      exact @ih { r with header := edit r.header } { w with header := edit w.header } { hp with }
        hwrote
    | writeHeader statusCode =>
      have hexec : w.exec (.writeHeader statusCode) = .ok w := by
        simp [Writer.exec, Writer.writeHeader, hp.direct]
      obtain ⟨header, hhdr⟩ := writeHeader_written hwrote statusCode
      rw [run_of_exec (.writeHeader statusCode) hhdr, run_direct _ hexec]
      exact @ih { r with header } w { hp with } hwrote
    | write b =>
      have hexec : r.exec (.write b) = .ok { r with client := r.client.write b } := by
        rw [exec, write_written hwrote, if_neg (by simp [hp.needFallback])]
      obtain ⟨hp', hhdr, hhdr'⟩ := hp.write b
      rw [run_of_exec _ hexec, run_direct (.write b) rfl, ← hhdr]
      obtain ⟨r', w', hrun, hrun', hpaired, hheader, hheader'⟩ := ih hp' hwrote
      exact ⟨r', w', hrun, hrun', hpaired, hheader, hheader'.trans (by rw [hhdr']; rfl)⟩
    | flush =>
      obtain ⟨hflush, hflush'⟩ := hp.flush
      rw [run_of_exec .flush (show r.exec .flush = .ok r from congrArg _ hflush),
        run_direct .flush (show w.exec .flush = .ok w from congrArg _ hflush')]
      exact ih hp hwrote

/-- An answer after a `Flush` changes nothing but the map of the client. -/
theorem Paired.answer (hp : Paired r w code g h) (hwrote : r.written = false)
    (hheader : r.client.header = ∅) (hinf : ¬ Informational statusCode)
    (hpass : ¬ r.statusCodeRange.Contains statusCode) :
    ∃ r', r.writeHeader statusCode = .ok r' ∧ Paired r' w code g h ∧ r'.written = true ∧
      r'.client.header = addAll ∅ r.header := by
  refine ⟨{ r with
    written := true
    needFallback := false
    client := { r.client with header := addAll ∅ r.header } }, ?_,
    ⟨rfl, hp.through, hp.direct, hp.body⟩, rfl, rfl⟩
  simp [ResponseWriter.writeHeader, hinf, hwrote, hpass, hheader, Writer.writeHeader, hp.through,
    bind, Except.bind]

/-- After a `Flush` without an answer, the first answer copies the private map. -/
theorem Paired.run_flushed (hp : Paired r w code g h) (hwrote : r.written = false)
    (hheader : r.client.header = ∅) (hpasses : ¬ Fails r.statusCodeRange ops) :
    ∃ r' w', r.run ops = .ok r' ∧ w.run ops = .ok w' ∧ Paired r' w' code g h ∧
      r'.client.header = copied r.header ops ∧ w'.header = edited w.header ops := by
  induction ops generalizing r w with
  | nil => exact ⟨r, w, rfl, rfl, hp, hheader, rfl⟩
  | cons op ops ih =>
    cases op with
    | header edit =>
      exact @ih { r with header := edit r.header } { w with header := edit w.header } { hp with }
        hwrote hheader hpasses
    | writeHeader statusCode =>
      have hexec : w.exec (.writeHeader statusCode) = .ok w := by
        simp [Writer.exec, Writer.writeHeader, hp.direct]
      rw [run_direct _ hexec]
      by_cases hinf : Informational statusCode
      · rw [run_of_exec (.writeHeader statusCode) (writeHeader_informational hinf)]
        simp only [copied, if_pos hinf]
        simp only [Fails, firstFinal, if_pos hinf] at hpasses
        exact @ih { r with header := ∅ } w { hp with } hwrote hheader hpasses
      · simp only [Fails, firstFinal, if_neg hinf] at hpasses
        obtain ⟨r₁, hr, hp₁, hwrote₁, hhdr⟩ := hp.answer hwrote hheader hinf
          fun h => hpasses ⟨statusCode, rfl, h⟩
        rw [run_of_exec (.writeHeader statusCode) hr]
        simp only [copied, if_neg hinf, ← hhdr]
        exact hp₁.run_written hwrote₁ ops
    | write b =>
      have hpass : ¬ r.statusCodeRange.Contains 200 := fun h => hpasses ⟨200, rfl, h⟩
      obtain ⟨r₁, hr, hp₁, hwrote₁, hhdr⟩ := hp.answer hwrote hheader not_informational_ok hpass
      have hexec : r.exec (.write b) = r₁.exec (.write b) := by
        rw [exec, exec, ResponseWriter.write, ResponseWriter.write, if_neg (by simp [hwrote]), hr,
          if_pos hwrote₁]
      rw [run_cons, hexec, ← run_cons, show copied r.header (.write b :: ops) = _ from hhdr.symm]
      exact hp₁.run_written hwrote₁ _
    | flush =>
      obtain ⟨hflush, hflush'⟩ := hp.flush
      rw [run_of_exec .flush (show r.exec .flush = .ok r from congrArg _ hflush),
        run_direct .flush (show w.exec .flush = .ok w from congrArg _ hflush')]
      exact ih hp hwrote hheader hpasses

/-- The responses of two runs that return. -/
theorem Paired.answersAlike_iff {r' : ResponseWriter} {w' : Writer} (hp : Paired r' w' code g h)
    (hrun : r.run ops = .ok r') (hrun' : w.run ops = .ok w') :
    AnswersAlike r w ops ↔ SameHeader g h ∧ SameHeader r'.client.header w'.header := by
  constructor
  · rintro (⟨e, herror, -⟩ | ⟨r₁, w₁, hok, hok', c, g', h', hc, hc', hsent, hend, -⟩)
    · cases hrun.symm.trans herror
    · cases hrun.symm.trans hok
      cases hrun'.symm.trans hok'
      simp only [Writer.commitOK, hp.through, hp.direct, Option.some.injEq, Prod.mk.injEq] at hc hc'
      rw [hc.2, hc'.2]
      exact ⟨hsent, hend⟩
  · rintro ⟨hsent, hend⟩
    refine .inr ⟨r', w', hrun, hrun', code, g, h, ?_, ?_, hsent, hend, hp.body⟩
    · simp [Writer.commitOK, hp.through]
    · simp [Writer.commitOK, hp.direct]

/-- The answer itself. -/
theorem answersAlike_final_iff (hfresh : r.client = fresh ∅) (hnew : r.written = false)
    (hw : w.committed = none) (hbody : w.body = []) (hinf : ¬ Informational code)
    (hpass : ¬ r.statusCodeRange.Contains code) :
    AnswersAlike r w (.writeHeader code :: ops) ↔ (code < 100 ∨ 999 < code) ∨
      SameHeader (addAll ∅ r.header) w.header ∧
        SameHeader (addAll ∅ r.header) (edited w.header ops) := by
  have hthrough : r.exec (.writeHeader code) = (do
      let client ← Writer.writeHeader { fresh ∅ with header := addAll ∅ r.header } code
      .ok { r with written := true, needFallback := false, client }) := by
    rw [exec, ResponseWriter.writeHeader, if_neg hinf, if_neg (by simp [hnew]), if_neg hpass,
      hfresh]
    rfl
  by_cases hval : code < 100 ∨ 999 < code
  · refine iff_of_true (.inl ⟨.invalidWriteHeaderCode code, ?_, ?_⟩) (.inl hval)
    · rw [run_cons, hthrough]
      simp [Writer.writeHeader, fresh, hval, bind, Except.bind]
    · simp [Writer.run, Writer.exec, Writer.writeHeader, hw, hval, bind, Except.bind]
  · have hdirect : w.exec (.writeHeader code) =
        .ok { w with committed := some (code, w.header) } := by
      simp only [Writer.exec, Writer.writeHeader, hw, if_neg hval, if_neg hinf]
    have hsent : r.exec (.writeHeader code) = .ok { r with
        written := true, needFallback := false,
        client := ⟨addAll ∅ r.header, [], some (code, addAll ∅ r.header), []⟩ } := by
      rw [hthrough]
      simp only [Writer.writeHeader, fresh, if_neg hval, if_neg hinf]
      rfl
    rw [AnswersAlike, run_of_exec _ hsent, run_direct _ hdirect, ← AnswersAlike]
    have hpaired : Paired { r with
        written := true, needFallback := false,
        client := ⟨addAll ∅ r.header, [], some (code, addAll ∅ r.header), []⟩ }
        { w with committed := some (code, w.header) } code (addAll ∅ r.header) w.header :=
      ⟨rfl, rfl, rfl, hbody.symm⟩
    obtain ⟨r', w', hrun, hrun', hp, hhdr, hhdr'⟩ := hpaired.run_written rfl ops
    rw [hp.answersAlike_iff hrun hrun', hhdr, hhdr', or_iff_right hval]

/-- A handler that never answers. -/
theorem answersAlike_nil_iff (hfresh : r.client = fresh ∅) (hw : w.committed = none)
    (hbody : w.body = []) : AnswersAlike r w [] ↔ SameHeader ∅ w.header := by
  constructor
  · rintro (⟨e, herror, -⟩ | ⟨r', w', hrun, hrun', c, g, h, -, -, -, hend, -⟩)
    · cases herror
    · cases hrun
      cases hrun'
      rwa [hfresh] at hend
  · intro hsame
    refine .inr ⟨r, w, rfl, rfl, 200, ∅, w.header, ?_, ?_, hsame, ?_, ?_⟩
    · simp [hfresh, fresh, Writer.commitOK]
    · simp [Writer.commitOK, hw]
    · rw [hfresh]
      exact hsame
    · rw [hfresh, hbody]
      rfl

/-- `Write` first calls `WriteHeader(200)`, on both sides. -/
theorem answersAlike_write_iff (hfresh : r.client = fresh ∅) (hnew : r.written = false)
    (hw : w.committed = none) (hpass : ¬ r.statusCodeRange.Contains 200) (b : List UInt8) :
    AnswersAlike r w (.write b :: ops) ↔ AnswersAlike r w (.writeHeader 200 :: .write b :: ops) := by
  have hthrough : r.run (.writeHeader 200 :: .write b :: ops) = r.run (.write b :: ops) := by
    simp [ResponseWriter.run, exec, ResponseWriter.write, ResponseWriter.writeHeader, hfresh,
      hnew, Writer.writeHeader, fresh, not_informational_ok, hpass, bind, Except.bind]
  have hdirect : w.run (.writeHeader 200 :: .write b :: ops) = w.run (.write b :: ops) := by
    simp [Writer.run, Writer.exec, Writer.writeHeader, Writer.write, Writer.commitOK, hw,
      not_informational_ok, bind, Except.bind]
  rw [AnswersAlike, ← hthrough, ← hdirect, ← AnswersAlike]

theorem answersAlike_flush_iff (hfresh : r.client = fresh ∅) (hnew : r.written = false)
    (hneed : r.needFallback = false) (hw : w.committed = none) (hbody : w.body = [])
    (hpasses : ¬ Fails r.statusCodeRange ops) :
    AnswersAlike r w (.flush :: ops) ↔
      SameHeader ∅ w.header ∧ SameHeader (copied r.header ops) (edited w.header ops) := by
  have hp : Paired r.flush w.flush 200 ∅ w.header := by
    refine ⟨hneed, ?_, ?_, ?_⟩ <;>
      simp [ResponseWriter.flush, Writer.flush, Writer.commitOK, hfresh, fresh, hw, hbody]
  have hheader : r.flush.client.header = ∅ ∧ w.flush.header = w.header := by
    simp [ResponseWriter.flush, Writer.flush, Writer.commitOK, hfresh, fresh, hw]
  obtain ⟨r', w', hrun, hrun', hpaired, hhdr, hhdr'⟩ :=
    hp.run_flushed hnew hheader.1 (show ¬ Fails r.flush.statusCodeRange ops from hpasses)
  rw [hheader.2] at hhdr'
  have hiff : AnswersAlike r w (.flush :: ops) ↔
      SameHeader ∅ w.header ∧ SameHeader r'.client.header w'.header :=
    hpaired.answersAlike_iff hrun hrun'
  rw [hiff, hhdr, hhdr']
  rfl

theorem answersAlike_iff (hfresh : r.client = fresh ∅) (hnew : r.written = false)
    (hneed : r.needFallback = false) (hw : w.committed = none) (hbody : w.body = [])
    (hpasses : ¬ Fails r.statusCodeRange ops) :
    AnswersAlike r w ops ↔ MapsAgree r.header w.header ops := by
  induction ops generalizing r w with
  | nil => exact answersAlike_nil_iff hfresh hw hbody
  | cons op ops ih =>
    cases op with
    | header edit =>
      exact @ih { r with header := edit r.header } { w with header := edit w.header } hfresh hnew
        hneed hw hbody hpasses
    | writeHeader statusCode =>
      by_cases hinf : Informational statusCode
      · have hdirect : w.exec (.writeHeader statusCode) = .ok { w with
            informational := w.informational ++ [(statusCode, w.header)] } := by
          have hval : ¬ (statusCode < 100 ∨ 999 < statusCode) := by
            unfold Informational at hinf
            omega
          simp only [Writer.exec, Writer.writeHeader, hw, if_neg hval, if_pos hinf]
        simp only [Fails, firstFinal, if_pos hinf] at hpasses
        rw [AnswersAlike, run_of_exec (.writeHeader statusCode) (writeHeader_informational hinf),
          run_direct _ hdirect, ← AnswersAlike]
        simp only [MapsAgree, if_pos hinf]
        exact @ih { r with header := ∅ } { w with
          informational := w.informational ++ [(statusCode, w.header)] } hfresh hnew hneed hw hbody
          hpasses
      · simp only [MapsAgree, if_neg hinf]
        simp only [Fails, firstFinal, if_neg hinf] at hpasses
        exact answersAlike_final_iff hfresh hnew hw hbody hinf fun h => hpasses ⟨statusCode, rfl, h⟩
    | write b =>
      have hpass : ¬ r.statusCodeRange.Contains 200 := fun h => hpasses ⟨200, rfl, h⟩
      rw [answersAlike_write_iff hfresh hnew hw hpass,
        answersAlike_final_iff hfresh hnew hw hbody not_informational_ok hpass]
      simp [MapsAgree, edited]
    | flush => exact answersAlike_flush_iff hfresh hnew hneed hw hbody hpasses

end

end Ingress.Failover
