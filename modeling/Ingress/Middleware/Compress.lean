import Ingress.Framework.StreamEncoder
import Ingress.Http.ResponseWriter

/-! # The Compress Middleware

    `pkg/middlewares/compress/compression_handler.go`: the writer given to the next
    handler holds the body back until it knows whether to compress it.  A response
    whose header forbids it is passed on, one of `minSize` bytes or one that is flushed
    goes through the encoder, and a smaller one is sent as it is at the end.

    The writer of the client accepts all bytes, and the encoder is any lossless one.

    * `ResponseWriter`, `handle`: the code.
    * `Pending`, `opening`: what has been asked for when the response begins.
    * `preserved_iff`: when the client gets the response of the handler. -/

open Except List

namespace Ingress.Compress

open Http

/-! ## Content types -/

/-- `Header.Get`: the first value, or the empty string. -/
def get (h : Header) (key : String) : String :=
  ((h.lookup (canonicalMIMEHeaderKey key)).bind List.head?).getD ""

/-- The parameters of a media type. -/
abbrev Params := AList fun _ : String => String

structure ParsedContentType where
  mediaType : String
  params : Params

/-- `equals`: a content type without parameters does not look at the other's. -/
def ParsedContentType.equals (p : ParsedContentType) (mediaType : String) (params : Params) : Bool :=
  if p.mediaType != mediaType then false
  else if p.params.entries.isEmpty then true
  else if p.params.entries.length != params.entries.length then false
  else p.params.entries.all fun entry => params.lookup entry.1 == some entry.2

/-- `mime.ParseMediaType`: a media type with its parameters, or an error. -/
abbrev ParseMediaType := String → Except String ParsedContentType

/-- `CompressionHandler`, without the pool of writers. -/
structure CompressionHandler where
  parseMediaType : ParseMediaType
  excludedContentTypes : List ParsedContentType
  includedContentTypes : List ParsedContentType
  minSize : ℤ

/-- The checks of `Write` on the header: an encoding of the handler's own, or a content
    type that cannot be parsed, is not included or is excluded. -/
def CompressionHandler.disables (c : CompressionHandler) (h : Header) : Bool :=
  get h "Content-Encoding" != "" ||
    (get h "Content-Type" != "" &&
      match c.parseMediaType (get h "Content-Type") with
      | .error _ => true
      | .ok ct =>
        (!c.includedContentTypes.isEmpty &&
          !c.includedContentTypes.any (·.equals ct.mediaType ct.params)) ||
        c.excludedContentTypes.any (·.equals ct.mediaType ct.params))

/-! ## The code -/

/-- `compressionWriterWrapper`. -/
structure CompressionWriter extends StreamEncoder UInt8 where
  algo : String

/-- `Write` of a writer that accepts all bytes. -/
def accept (w : Writer) (b : List UInt8) : Writer :=
  { w.commitOK with body := w.body ++ b }

/-- `responseWriter`, over the writer of the client and the state of the encoder. -/
structure ResponseWriter (cw : CompressionWriter) where
  client : Writer
  encoder : cw.State
  buf : List UInt8
  compressionStarted : Bool
  compressionDisabled : Bool
  headersSent : Bool
  seenData : Bool
  statusCodeSet : Bool
  statusCode : ℤ

namespace ResponseWriter

variable {cw : CompressionWriter}

/-- The writer that `ServeHTTP` makes. -/
def new (cw : CompressionWriter) (client : Writer) : ResponseWriter cw where
  client
  encoder := cw.init
  buf := []
  compressionStarted := false
  compressionDisabled := false
  headersSent := false
  seenData := false
  statusCodeSet := false
  statusCode := 200

/-- `WriteHeader`.  All of 1xx is passed on, 101 too. -/
def writeHeader (r : ResponseWriter cw) (statusCode : ℤ) : Except Panic (ResponseWriter cw) :=
  if 100 ≤ statusCode ∧ statusCode ≤ 199 then do
    let client ← r.client.writeHeader statusCode
    .ok { r with client }
  else if r.statusCodeSet then .ok r
  else .ok { r with statusCode, statusCodeSet := true }

/-- `compressionWriter.Write`: what the encoder emits goes to the client. -/
def encode (r : ResponseWriter cw) (p : List UInt8) : ResponseWriter cw :=
  { r with encoder := (cw.write r.encoder p).1, client := accept r.client (cw.write r.encoder p).2 }

/-- `compressionWriter.Flush`. -/
def flushEncoder (r : ResponseWriter cw) : ResponseWriter cw :=
  { r with encoder := (cw.flush r.encoder).1, client := accept r.client (cw.flush r.encoder).2 }

/-- `compressionWriter.Close`. -/
def closeEncoder (r : ResponseWriter cw) : ResponseWriter cw :=
  { r with client := accept r.client (cw.close r.encoder) }

/-- The header of a response that is compressed. -/
def startCompression (r : ResponseWriter cw) : Except Panic (ResponseWriter cw) := do
  let header := (r.client.header.del "Content-Length").set "Content-Encoding" cw.algo
  let client ← Writer.writeHeader { r.client with header } r.statusCode
  .ok { r with client, compressionStarted := true, headersSent := true }

/-- What has been held back goes through the encoder. -/
def encodeBuf (r : ResponseWriter cw) : ResponseWriter cw :=
  { r.encode r.buf with buf := [] }

/-- `Write`, after `seenData` is set. -/
def writeData (c : CompressionHandler) (r : ResponseWriter cw) (p : List UInt8) :
    Except Panic (ResponseWriter cw) :=
  if r.compressionDisabled then .ok { r with client := accept r.client p }
  else if r.compressionStarted then .ok (r.encode p)
  else if c.disables r.client.header then do
    let client ← r.client.writeHeader r.statusCode
    .ok { r with compressionDisabled := true, client := accept client p }
  else if (r.buf.length + p.length : ℤ) < c.minSize then .ok { r with buf := r.buf ++ p }
  else do
    let r ← r.startCompression
    .ok (r.encodeBuf.encode p)

def write (c : CompressionHandler) (r : ResponseWriter cw) (p : List UInt8) :
    Except Panic (ResponseWriter cw) :=
  writeData c { r with seenData := r.seenData || !p.isEmpty } p

/-- `Flush`, of a writer that compresses. -/
def flushStarted (r : ResponseWriter cw) : ResponseWriter cw :=
  { r.encodeBuf.flushEncoder with client := r.encodeBuf.flushEncoder.client.flush }

def flush (r : ResponseWriter cw) : Except Panic (ResponseWriter cw) :=
  if !r.seenData then .ok r
  else if r.compressionDisabled then .ok { r with client := r.client.flush }
  else if r.compressionStarted then .ok r.flushStarted
  else do
    let r ← r.startCompression
    .ok r.flushStarted

/-- The status that `close` sends. -/
def sendHeader (r : ResponseWriter cw) : Except Panic (ResponseWriter cw) :=
  if r.headersSent then .ok r
  else do
    let client ← r.client.writeHeader r.statusCode
    .ok { r with client, headersSent := true }

/-- The rest of `close`. -/
def closeData (r : ResponseWriter cw) : ResponseWriter cw :=
  if !r.seenData then r
  else if r.compressionDisabled then r
  else if r.buf.isEmpty then r.closeEncoder
  else if !r.compressionStarted then { r with client := accept r.client r.buf }
  else (r.encode r.buf).closeEncoder

/-- `close`, of a connection that was not hijacked. -/
def close (r : ResponseWriter cw) : Except Panic (ResponseWriter cw) := do
  let r ← r.sendHeader
  .ok r.closeData

/-- One call of the next handler. -/
def exec (c : CompressionHandler) (r : ResponseWriter cw) : Op → Except Panic (ResponseWriter cw)
  | .header edit => .ok { r with client := { r.client with header := edit r.client.header } }
  | .writeHeader statusCode => r.writeHeader statusCode
  | .write p => r.write c p
  | .flush => r.flush

/-- The calls of the next handler. -/
def run (c : CompressionHandler) (r : ResponseWriter cw) (calls : List Op) :
    Except Panic (ResponseWriter cw) :=
  calls.foldlM (exec c) r

end ResponseWriter

/-- The calls of the next handler on a new writer, and `close`. -/
def handle (c : CompressionHandler) (cw : CompressionWriter) (header : Header) (calls : List Op) :
    Except Panic (ResponseWriter cw) := do
  let r ← (ResponseWriter.new cw (fresh header)).run c calls
  r.close

/-- `ServeHTTP`.  `newWriter` is the outcome of `getCompressionWriter`. -/
def serveHTTP (c : CompressionHandler) (newWriter : Option CompressionWriter) (header : Header)
    (calls : List Op) : Except Panic Writer :=
  match newWriter with
  | none => (fresh (header.add "Vary" "Accept-Encoding")).writeHeader 500
  | some cw => (handle c cw (header.add "Vary" "Accept-Encoding") calls).map (·.client)

/-! ## The response of the handler -/

/-- The bytes written. -/
def written (calls : List Op) : List UInt8 :=
  calls.flatMap fun
    | .write p => p
    | _ => []

/-- The first final status. -/
def firstFinal : List Op → Option ℤ
  | [] => none
  | .writeHeader statusCode :: calls =>
    if Informational statusCode then firstFinal calls else some statusCode
  | _ :: calls => firstFinal calls

/-- The header map as the handler leaves it. -/
def headerAfter (header : Header) (calls : List Op) : Header :=
  calls.foldl (fun h op => match op with | .header edit => edit h | _ => h) header

/-- The client gets the first final status with the body of the handler: unchanged and
    with a header of the handler, or encoded and with the encoding named.  Which of the
    two it is depends on what was done, not on a coincidence of bytes. -/
def Preserved {cw : CompressionWriter} (header : Header) (calls : List Op)
    (result : Except Panic (ResponseWriter cw)) : Prop :=
  ∃ r h, result = .ok r ∧ r.client.committed = some ((firstFinal calls).getD 200, h) ∧
    if r.compressionStarted then
      cw.decode r.client.body = some (written calls) ∧ get h "Content-Encoding" = cw.algo
    else
      r.client.body = written calls ∧ ∃ before, before <+: calls ∧ h = headerAfter header before

/-! ## Before the response begins -/

/-- What the calls before the response have asked for: the header map, the bytes held
    back, the status to send, and the header a 101 was sent with. -/
structure Pending where
  header : Header
  buffered : List UInt8
  status : Option ℤ
  switched : Option Header

namespace Pending

/-- Nothing yet. -/
def start (header : Header) : Pending where
  header
  buffered := []
  status := none
  switched := none

/-- A call that does not begin the response. -/
def next (p : Pending) : Op → Pending
  | .header edit => { p with header := edit p.header }
  | .writeHeader statusCode =>
    if statusCode = 101 then { p with switched := p.switched <|> some p.header }
    else if 100 ≤ statusCode ∧ statusCode ≤ 199 then p
    else { p with status := p.status <|> some statusCode }
  | .write b => { p with buffered := p.buffered ++ b }
  | .flush => p

/-- The call begins the response: a `Write` that is not held back, or a `Flush` of what
    has been. -/
def begins (c : CompressionHandler) (p : Pending) : Op → Bool
  | .write b => c.disables p.header || decide (c.minSize ≤ (p.buffered.length + b.length : ℤ))
  | .flush => !p.buffered.isEmpty
  | _ => false

/-- The call begins a response that is not compressed. -/
def passes (c : CompressionHandler) (p : Pending) : Op → Bool
  | .write _ => c.disables p.header
  | _ => false

/-- What is pending when the response begins, and the calls from there on. -/
def opening (c : CompressionHandler) (p : Pending) : List Op → Pending × List Op
  | [] => (p, [])
  | op :: calls => if p.begins c op then (p, op :: calls) else (p.next op).opening c calls

/-- The status the client gets. -/
def sent (p : Pending) : ℤ :=
  match p.switched with
  | some _ => 101
  | none => p.status.getD 200

/-- The status can be sent. -/
def Sendable (p : Pending) : Prop :=
  p.switched = none → 100 ≤ p.sent ∧ p.sent ≤ 999

end Pending

/-- What the encoder is fed with once the response is compressed. -/
def feeds : Bool → List Op → List (Feed UInt8)
  | _, [] => []
  | seen, .write p :: calls => .write p :: feeds (seen || !p.isEmpty) calls
  | true, .flush :: calls => .write [] :: .flush :: feeds true calls
  | false, .flush :: calls => feeds false calls
  | seen, _ :: calls => feeds seen calls

/-- What the encoder is fed with by the call that begins the response. -/
def openingFeeds (buffered : List UInt8) : Op → List (Feed UInt8)
  | .write p => [.write buffered, .write p]
  | _ => [.write buffered, .flush]

/-- The condition.  The first final status is known when the response begins, and can be
    sent.  Nothing is held back when the response turns out not to be compressed.  When it
    is compressed, no 101 was sent before with another encoding, and there is a byte to
    encode, or the encoder needs no closing. -/
def Keeps (c : CompressionHandler) (cw : CompressionWriter) (header : Header) (calls : List Op) :
    Prop :=
  let p := ((Pending.start header).opening c calls).1
  p.sent = (firstFinal calls).getD 200 ∧ p.Sendable ∧
    match ((Pending.start header).opening c calls).2 with
    | [] => True
    | op :: rest =>
      if p.passes c op then p.buffered = []
      else (∀ h, p.switched = some h → get h "Content-Encoding" = cw.algo) ∧
        (written calls = [] →
          cw.decode (cw.after (openingFeeds p.buffered op ++ feeds false rest)).2 = some [])

variable {c : CompressionHandler} {cw : CompressionWriter} {r r' : ResponseWriter cw}
  {p : Pending} {header : Header} {op : Op} {calls : List Op}

@[simp] theorem written_nil : written [] = [] := rfl

@[simp] theorem written_append (calls calls' : List Op) :
    written (calls ++ calls') = written calls ++ written calls' := by
  simp [written]

theorem written_cons (op : Op) (calls : List Op) :
    written (op :: calls) = written [op] ++ written calls :=
  written_append [op] calls

theorem isEmpty_append (b b' : List UInt8) : (b ++ b').isEmpty = (b.isEmpty && b'.isEmpty) := by
  cases b <;> rfl

open ResponseWriter

theorem run_cons (c : CompressionHandler) (r : ResponseWriter cw) (op : Op) (calls : List Op) :
    r.run c (op :: calls) = r.exec c op >>= fun r => r.run c calls := by
  simp [run]

variable {s : ℤ × Header} {w : Writer}

theorem commitOK_committed (h : w.committed = some s) : w.commitOK = w := by
  rw [Writer.commitOK, h]

theorem writeHeader_committed (h : w.committed = some s) (code : ℤ) :
    w.writeHeader code = .ok w := by
  rw [Writer.writeHeader, h]

theorem accept_committed (h : w.committed = some s)
    (b : List UInt8) : accept w b = { w with body := w.body ++ b } := by
  rw [accept, commitOK_committed h]

/-! ### Calls that are held back -/

/-- The writer has sent nothing but a 101, and holds what is pending. -/
structure Awaits (r : ResponseWriter cw) (p : Pending) : Prop where
  header : r.client.header = p.header
  body : r.client.body = []
  committed : r.client.committed = p.switched.map (101, ·)
  buf : r.buf = p.buffered
  encoder : r.encoder = cw.init
  started : r.compressionStarted = false
  disabled : r.compressionDisabled = false
  sent : r.headersSent = false
  seen : r.seenData = !p.buffered.isEmpty
  isSet : r.statusCodeSet = p.status.isSome
  status : r.statusCode = p.status.getD 200
  final : ¬ (100 ≤ r.statusCode ∧ r.statusCode ≤ 199)

theorem awaits_new (cw : CompressionWriter) (header : Header) :
    Awaits (new cw (fresh header)) (.start header) := by
  constructor <;> first | rfl | simp [new]

/-- `WriteHeader` with 1xx. -/
theorem exec_informational {code : ℤ} (h : Awaits r p) (hcode : 100 ≤ code ∧ code ≤ 199) :
    ∃ r', r.exec c (.writeHeader code) = .ok r' ∧ Awaits r' (p.next (.writeHeader code)) := by
  have hexec : r.exec c (.writeHeader code) =
      r.client.writeHeader code >>= fun client => .ok { r with client } := by
    show r.writeHeader code = _
    rw [writeHeader, if_pos hcode]
  rw [hexec]
  cases hswitch : p.switched with
  | some h' =>
    -- a 101 has been sent: the call is superfluous
    have hnext : p.next (.writeHeader code) = p := by
      simp only [Pending.next, hswitch, if_pos hcode]
      split
      · cases p
        simp_all
      · rfl
    have hcommit : r.client.committed = some (101, h') := by simp [h.committed, hswitch]
    rw [writeHeader_committed hcommit, hnext]
    exact ⟨r, rfl, h⟩
  | none =>
    have hcommit : r.client.committed = none := by simp [h.committed, hswitch]
    have hrange : ¬ (code < 100 ∨ 999 < code) := by omega
    by_cases h101 : code = 101
    · subst h101
      refine ⟨{ r with client := { r.client with committed := some (101, r.client.header) } }, ?_, ?_⟩
      · simp [Writer.writeHeader, hcommit, Informational, bind, Except.bind]
      · have hnext : p.next (.writeHeader 101) = { p with switched := some p.header } := by
          simp [Pending.next, hswitch]
        rw [hnext]
        exact { h with committed := by simp [h.header] }
    · have hinf : Informational code := ⟨hcode.1, hcode.2, h101⟩
      refine ⟨{ r with client := { r.client with
        informational := r.client.informational ++ [(code, r.client.header)] } }, ?_, ?_⟩
      · simp [Writer.writeHeader, hcommit, hrange, hinf, bind, Except.bind]
      · have hnext : p.next (.writeHeader code) = p := by simp [Pending.next, h101, hcode]
        rw [hnext]
        exact { h with }

/-- A call that does not begin the response. -/
theorem exec_awaits (h : Awaits r p) (hbegins : p.begins c op = false) :
    ∃ r', r.exec c op = .ok r' ∧ Awaits r' (p.next op) := by
  match op with
  | .header edit =>
    exact ⟨_, rfl, { h with header := congrArg edit h.header }⟩
  | .writeHeader code =>
    by_cases hcode : 100 ≤ code ∧ code ≤ 199
    · exact exec_informational h hcode
    · have h101 : code ≠ 101 := by omega
      have hexec : r.exec c (.writeHeader code) =
          if r.statusCodeSet then .ok r
          else .ok { r with statusCode := code, statusCodeSet := true } := by
        show r.writeHeader code = _
        rw [writeHeader, if_neg hcode]
      rw [hexec, h.isSet]
      simp only [Pending.next, if_neg h101, if_neg hcode]
      cases hstat : p.status with
      | some code' =>
        refine ⟨r, rfl, { h with isSet := ?_, status := ?_ }⟩
        · simp [h.isSet, hstat]
        · simp [h.status, hstat]
      | none => exact ⟨_, rfl, { h with isSet := rfl, status := rfl, final := hcode }⟩
  | .write b =>
    obtain ⟨hdisables, hsize⟩ : c.disables p.header = false ∧
        (p.buffered.length + b.length : ℤ) < c.minSize := by
      simpa [Pending.begins] using hbegins
    refine ⟨{ r with seenData := r.seenData || !b.isEmpty, buf := r.buf ++ b }, ?_, ?_⟩
    · show writeData c _ b = _
      simp [writeData, h.disabled, h.started, h.header, hdisables, h.buf, hsize]
    · refine { h with buf := ?_, seen := ?_ }
      · simp [Pending.next, h.buf]
      · simp [Pending.next, h.seen, isEmpty_append]
  | .flush =>
    have hempty : p.buffered.isEmpty = true := by simpa [Pending.begins] using hbegins
    refine ⟨r, ?_, h⟩
    show r.flush = _
    simp [flush, h.seen, hempty]

open Pending

/-- All calls before the response begins. -/
theorem run_awaits (h : Awaits r p) (calls : List Op) :
    ∃ r', Awaits r' (p.opening c calls).1 ∧ r.run c calls = r'.run c (p.opening c calls).2 := by
  induction calls generalizing r p with
  | nil => exact ⟨r, h, rfl⟩
  | cons op calls ih =>
    rw [opening]
    split
    · exact ⟨r, h, rfl⟩
    · next hbegins =>
      obtain ⟨r₁, hexec, h₁⟩ := exec_awaits h (Bool.eq_false_iff.mpr hbegins)
      obtain ⟨r', h', hrun⟩ := ih h₁
      refine ⟨r', h', ?_⟩
      rw [run_cons, hexec, ← hrun]
      rfl

/-- The status is sent, unless a 101 was, with the header map as it then is. -/
theorem Awaits.commit (h : Awaits r p) (header : Header) (hsend : p.Sendable) :
    Writer.writeHeader { r.client with header } r.statusCode =
      .ok { r.client with header, committed := some (p.sent, p.switched.getD header) } := by
  cases hswitch : p.switched with
  | some h' => simp [Writer.writeHeader, h.committed, hswitch, Pending.sent]
  | none =>
    have hrange := hsend hswitch
    have hsent : p.sent = r.statusCode := by simp [Pending.sent, hswitch, h.status]
    rw [hsent] at hrange ⊢
    have hval : ¬ (r.statusCode < 100 ∨ 999 < r.statusCode) := by omega
    have hinf : ¬ Informational r.statusCode := fun hinf => h.final ⟨hinf.1, hinf.2.1⟩
    simp [Writer.writeHeader, h.committed, hswitch, hval, hinf]

theorem Awaits.panic (h : Awaits r p) (header : Header) (hsend : ¬ p.Sendable) :
    ∃ e, Writer.writeHeader { r.client with header } r.statusCode = .error e := by
  simp only [Pending.Sendable, Classical.not_imp] at hsend
  obtain ⟨hswitch, hrange⟩ := hsend
  have hsent : p.sent = r.statusCode := by simp [Pending.sent, hswitch, h.status]
  have hval : r.statusCode < 100 ∨ 999 < r.statusCode := by omega
  exact ⟨.invalidWriteHeaderCode r.statusCode, by
    simp [Writer.writeHeader, h.committed, hswitch, hval]⟩

/-- The header a response that is not compressed is sent with. -/
def Pending.sentHeader (p : Pending) : Header := p.switched.getD p.header

/-- No call has begun the response. -/
theorem close_awaits (h : Awaits r p) (hsendable : p.Sendable) :
    ∃ r', r.close = .ok r' ∧ r'.compressionStarted = false ∧
      r'.client.committed = some (p.sent, p.sentHeader) ∧ r'.client.body = p.buffered := by
  have hclient : r.client.writeHeader r.statusCode = .ok { r.client with
      committed := some (p.sent, p.switched.getD r.client.header) } :=
    h.commit r.client.header hsendable
  have hhdr : p.switched.getD r.client.header = p.sentHeader := by
    rw [h.header, sentHeader]
  rw [hhdr] at hclient
  have hsend : r.sendHeader = .ok { r with headersSent := true, client :=
      { r.client with committed := some (p.sent, p.sentHeader) } } := by
    simp [sendHeader, h.sent, hclient, bind, Except.bind]
  refine ⟨_, by rw [close, hsend]; rfl, ?_⟩
  cases hempty : p.buffered.isEmpty with
  | true =>
    have hnil := isEmpty_iff.mp hempty
    simp [closeData, h.seen, h.started, h.body, hnil]
  | false =>
    simp [closeData, h.seen, hempty, h.started, h.disabled, h.buf, accept, Writer.commitOK, h.body]

/-! ### A response that is not compressed -/

/-- The response has begun with `s`, its body so far is `b`, and it is not compressed. -/
structure Passing (r : ResponseWriter cw) (s : ℤ × Header) (b : List UInt8) : Prop where
  started : r.compressionStarted = false
  disabled : r.compressionDisabled = true
  committed : r.client.committed = some s
  body : r.client.body = b

variable {s : ℤ × Header} {b : List UInt8}

/-- `WriteHeader` when the response has begun. -/
theorem writeHeader_begun (h : r.client.committed = some s) (code : ℤ) :
    ∃ statusCode statusCodeSet, r.writeHeader code = .ok { r with statusCode, statusCodeSet } := by
  rw [ResponseWriter.writeHeader, writeHeader_committed h]
  split
  · exact ⟨_, _, rfl⟩
  · split <;> exact ⟨_, _, rfl⟩

theorem exec_passing (h : Passing r s b) (op : Op) :
    ∃ r', r.exec c op = .ok r' ∧ Passing r' s (b ++ written [op]) := by
  match op with
  | .header edit => exact ⟨_, rfl, { h with body := by simp [written, h.body] }⟩
  | .writeHeader code =>
    obtain ⟨_, _, hexec⟩ := writeHeader_begun h.committed code
    exact ⟨_, hexec, { h with body := by simp [written, h.body] }⟩
  | .write q =>
    refine ⟨{ r with seenData := r.seenData || !q.isEmpty, client := accept r.client q }, ?_, ?_⟩
    · show writeData c _ q = _
      simp [writeData, h.disabled]
    · rw [accept_committed h.committed]
      exact { h with body := by simp [written, h.body] }
  | .flush =>
    have hsame : b ++ written [.flush] = b := by simp [written]
    rw [hsame]
    have hflush : r.client.flush = r.client := commitOK_committed h.committed
    refine ⟨r, ?_, h⟩
    show r.flush = _
    rw [flush, hflush, if_pos h.disabled]
    split <;> rfl

theorem run_passing (h : Passing r s b) (calls : List Op) :
    ∃ r', r.run c calls = .ok r' ∧ Passing r' s (b ++ written calls) := by
  induction calls generalizing r b with
  | nil => exact ⟨r, rfl, by simpa using h⟩
  | cons op calls ih =>
    obtain ⟨r₁, hexec, h₁⟩ := exec_passing (c := c) h op
    obtain ⟨r', hrun, h'⟩ := ih h₁
    refine ⟨r', by rw [run_cons, hexec]; exact hrun, ?_⟩
    rwa [written_cons, ← append_assoc]

theorem close_passing (h : Passing r s b) : ∃ r', r.close = .ok r' ∧ Passing r' s b := by
  have hsend : ∃ r₁, r.sendHeader = .ok r₁ ∧ Passing r₁ s b := by
    rw [sendHeader, writeHeader_committed h.committed]
    split
    · exact ⟨r, rfl, h⟩
    · exact ⟨_, rfl, { h with }⟩
  obtain ⟨r₁, hsend, h₁⟩ := hsend
  refine ⟨r₁, ?_, h₁⟩
  rw [close, hsend]
  show ok r₁.closeData = _
  simp [closeData, h₁.disabled]

/-! ### A response that is compressed -/

/-- The response has begun with `s`, and the encoder was fed with `fs`. -/
structure Encoding (r : ResponseWriter cw) (s : ℤ × Header) (fs : List (Feed UInt8)) (seen : Bool) :
    Prop where
  started : r.compressionStarted = true
  disabled : r.compressionDisabled = false
  sent : r.headersSent = true
  committed : r.client.committed = some s
  buf : r.buf = []
  seen : r.seenData = seen
  fed : (r.encoder, r.client.body) = cw.after fs

variable {fs : List (Feed UInt8)} {seen : Bool}

theorem Encoding.encode (h : Encoding r s fs seen) (q : List UInt8) :
    Encoding (r.encode q) s (fs ++ [.write q]) seen := by
  have hclient := accept_committed h.committed (cw.write r.encoder q).2
  refine { h with committed := ?_, fed := ?_ }
  · simp [ResponseWriter.encode, hclient, h.committed]
  · rw [RawEncoder.after_snoc, ← h.fed]
    simp [ResponseWriter.encode, hclient, RawEncoder.feed]

/-- The end of `Flush`, when the buffer has gone through the encoder. -/
theorem Encoding.flushed (h : Encoding r.encodeBuf s fs seen) :
    Encoding r.flushStarted s (fs ++ [.flush]) seen := by
  have hclient := accept_committed h.committed (cw.flush r.encodeBuf.encoder).2
  have hcommit : r.encodeBuf.flushEncoder.client.committed = some s := by
    simp [flushEncoder, hclient, h.committed]
  have hflush : r.encodeBuf.flushEncoder.client.flush = r.encodeBuf.flushEncoder.client :=
    commitOK_committed hcommit
  rw [flushStarted, hflush]
  refine { h with committed := hcommit, fed := ?_ }
  rw [RawEncoder.after_snoc, ← h.fed]
  simp [flushEncoder, hclient, RawEncoder.feed]

theorem Encoding.flushStarted (h : Encoding r s fs seen) :
    Encoding r.flushStarted s (fs ++ [.write [], .flush]) seen := by
  have hbuf : Encoding r.encodeBuf s (fs ++ [.write []]) seen := by
    rw [ResponseWriter.encodeBuf, h.buf]
    exact { h.encode [] with buf := rfl }
  simpa using hbuf.flushed

theorem feeds_cons (seen : Bool) (op : Op) (calls : List Op) :
    feeds seen (op :: calls) =
      feeds seen [op] ++ feeds (seen || !(written [op]).isEmpty) calls := by
  cases op <;> cases seen <;> simp [feeds, written]

theorem content_feeds (seen : Bool) (calls : List Op) :
    Feed.content (feeds seen calls) = written calls := by
  induction calls generalizing seen with
  | nil => rfl
  | cons op calls ih => cases op <;> cases seen <;> simp [feeds, ih, written_cons _ calls] <;> simp [written]

theorem content_openingFeeds (buffered : List UInt8) (op : Op) :
    Feed.content (openingFeeds buffered op) = buffered ++ written [op] := by
  cases op <;> simp [openingFeeds, written]

theorem exec_encoding (h : Encoding r s fs seen) (op : Op) :
    ∃ r', r.exec c op = .ok r' ∧
      Encoding r' s (fs ++ feeds seen [op]) (seen || !(written [op]).isEmpty) := by
  match op with
  | .header edit =>
    have hedit : Encoding { r with client := { r.client with header := edit r.client.header } }
        s fs seen := { h with }
    exact ⟨_, rfl, by simpa [feeds, written] using hedit⟩
  | .writeHeader code =>
    obtain ⟨statusCode, statusCodeSet, hexec⟩ := writeHeader_begun h.committed code
    have hsame : Encoding { r with statusCode, statusCodeSet } s fs seen := { h with }
    exact ⟨_, hexec, by simpa [feeds, written] using hsame⟩
  | .write q =>
    have hseen : Encoding { r with seenData := r.seenData || !q.isEmpty } s fs (seen || !q.isEmpty) :=
      { h with seen := by simp [h.seen] }
    refine ⟨_, ?_, by simpa [feeds, written] using hseen.encode q⟩
    show writeData c _ q = _
    simp [writeData, h.disabled, h.started]
  | .flush =>
    show ∃ r', r.flush = .ok r' ∧ _
    match seen with
    | true =>
      refine ⟨r.flushStarted, ?_, by simpa [feeds, written] using h.flushStarted⟩
      simp [flush, h.seen, h.disabled, h.started]
    | false =>
      refine ⟨r, ?_, by simpa [feeds, written] using h⟩
      simp [flush, h.seen]

theorem run_encoding (h : Encoding r s fs seen) (calls : List Op) :
    ∃ r', r.run c calls = .ok r' ∧
      Encoding r' s (fs ++ feeds seen calls) (seen || !(written calls).isEmpty) := by
  induction calls generalizing r fs seen with
  | nil => exact ⟨r, rfl, by simpa [feeds] using h⟩
  | cons op calls ih =>
    obtain ⟨r₁, hexec, h₁⟩ := exec_encoding (c := c) h op
    obtain ⟨r', hrun, h'⟩ := ih h₁
    refine ⟨r', by rw [run_cons, hexec]; exact hrun, ?_⟩
    rw [feeds_cons seen op calls, ← append_assoc, written_cons op calls, isEmpty_append,
      Bool.not_and, ← Bool.or_assoc]
    exact h'

/-- The encoder is closed when it has been given a byte. -/
theorem close_encoding (h : Encoding r s fs seen) :
    ∃ r', r.close = .ok r' ∧ r'.compressionStarted = true ∧ r'.client.committed = some s ∧
      r'.client.body = if seen then cw.closed (cw.after fs) else (cw.after fs).2 := by
  have hclose : r.close = .ok r.closeData := by
    simp [close, sendHeader, h.sent, bind, Except.bind]
  refine ⟨_, hclose, ?_⟩
  rw [← h.fed]
  match seen with
  | true =>
    have hclient := accept_committed h.committed (cw.close r.encoder)
    simp [closeData, h.seen, h.disabled, h.buf, closeEncoder, hclient,
      h.started, h.committed, RawEncoder.closed]
  | false => simp [closeData, h.seen, h.started, h.committed]

/-! ### The call that begins the response -/

/-- The header a response that is compressed is sent with. -/
def Pending.encodedHeader (p : Pending) (algo : String) : Header :=
  p.switched.getD ((p.header.del "Content-Length").set "Content-Encoding" algo)

section
variable (h : Awaits r p)
include h

theorem exec_passes (hpass : p.passes c op = true) (hsend : p.Sendable) :
    ∃ r', r.exec c op = .ok r' ∧ Passing r' (p.sent, p.sentHeader) (written [op]) := by
  match op with
  | .write q =>
    have hdisables : c.disables p.header = true := hpass
    have hclient : r.client.writeHeader r.statusCode = .ok { r.client with
        committed := some (p.sent, p.switched.getD r.client.header) } :=
      h.commit r.client.header hsend
    refine ⟨{ r with
      seenData := r.seenData || !q.isEmpty
      compressionDisabled := true
      client := accept { r.client with
        committed := some (p.sent, p.switched.getD r.client.header) } q }, ?_, ?_⟩
    · show writeData c _ q = _
      simp [writeData, h.disabled, h.started, h.header, hdisables]
      rw [← h.header, hclient]
      rfl
    · constructor
      · exact h.started
      · rfl
      · simp [accept, Writer.commitOK, sentHeader, h.header]
      · simp [accept, Writer.commitOK, h.body, written]

theorem startCompression_awaits (hsend : p.Sendable) (seen : Bool) :
    ∃ r₁, startCompression { r with seenData := seen } = .ok r₁ ∧
      Encoding r₁.encodeBuf (p.sent, p.encodedHeader cw.algo) [.write p.buffered] seen := by
  have hclient := h.commit ((r.client.header.del "Content-Length").set "Content-Encoding" cw.algo)
    hsend
  rw [startCompression]
  simp only [hclient, bind, bind]
  refine ⟨_, rfl, ?_⟩
  rw [ResponseWriter.encodeBuf, h.buf]
  -- the buffer is emptied after it has gone through the encoder; the order does not matter
  refine @Encoding.encode cw { r with
    seenData := seen, buf := [], compressionStarted := true, headersSent := true
    client := { r.client with
      header := (r.client.header.del "Content-Length").set "Content-Encoding" cw.algo
      committed := some (p.sent, p.switched.getD
        ((r.client.header.del "Content-Length").set "Content-Encoding" cw.algo)) } }
    _ [] seen ?_ p.buffered
  constructor
  · rfl
  · exact h.disabled
  · rfl
  · simp [encodedHeader, h.header]
  · rfl
  · rfl
  · simp [h.encoder, h.body, RawEncoder.after]

/-- A `Write` that begins a response that is compressed. -/
theorem exec_write_encodes {q : List UInt8} (hbegins : p.begins c (.write q) = true)
    (hpass : p.passes c (.write q) = false) :
    r.exec c (.write q) =
      startCompression { r with seenData := r.seenData || !q.isEmpty } >>=
        fun r => .ok (r.encodeBuf.encode q) := by
  have hdisables : c.disables p.header = false := hpass
  have hsize : ¬ (p.buffered.length + q.length : ℤ) < c.minSize := by
    simpa [Pending.begins, hdisables] using hbegins
  show writeData c _ q = _
  rw [writeData, if_neg (by simp [h.disabled]), if_neg (by simp [h.started]),
    if_neg (by simp [h.header, hdisables]), if_neg (by simpa [h.buf] using hsize)]

theorem exec_encodes (hbegins : p.begins c op = true) (hpass : p.passes c op = false)
    (hsend : p.Sendable) :
    ∃ r', r.exec c op = .ok r' ∧ Encoding r' (p.sent, p.encodedHeader cw.algo)
      (openingFeeds p.buffered op) (!(p.buffered ++ written [op]).isEmpty) := by
  match op with
  | .write q =>
    obtain ⟨r₁, hstart, h₁⟩ := startCompression_awaits h hsend (r.seenData || !q.isEmpty)
    have hseen : (r.seenData || !q.isEmpty) = !(p.buffered ++ written [.write q]).isEmpty := by
      rw [h.seen, isEmpty_append, Bool.not_and]
      simp [written]
    refine ⟨r₁.encodeBuf.encode q, ?_, ?_⟩
    · rw [exec_write_encodes h hbegins hpass, hstart]
      rfl
    · rw [← hseen]
      exact h₁.encode q
  | .flush =>
    have hsome : p.buffered.isEmpty = false := by simpa [Pending.begins] using hbegins
    obtain ⟨r₁, hstart, h₁⟩ := startCompression_awaits h hsend r.seenData
    have hseen : r.seenData = !(p.buffered ++ written [.flush]).isEmpty := by
      simp [h.seen, written]
    refine ⟨r₁.flushStarted, ?_, ?_⟩
    · show r.flush = _
      simp [flush, h.seen, hsome, h.disabled, h.started, hstart, bind, Except.bind]
    · rw [← hseen]
      exact h₁.flushed

/-- A status that cannot be sent is found out when the response begins. -/
theorem exec_panics (hbegins : p.begins c op = true) (hsend : ¬ p.Sendable) :
    ∃ e, r.exec c op = .error e := by
  obtain ⟨e, hclient⟩ := h.panic r.client.header hsend
  have hstart : ∀ seen, ∃ e, startCompression { r with seenData := seen } = .error e := by
    intro seen
    obtain ⟨e, he⟩ := h.panic
      ((r.client.header.del "Content-Length").set "Content-Encoding" cw.algo) hsend
    exact ⟨e, by simp only [startCompression, he, bind, Except.bind]⟩
  match op with
  | .write q =>
    obtain ⟨e', hstart⟩ := hstart (r.seenData || !q.isEmpty)
    cases hdisables : c.disables p.header with
    | true =>
      refine ⟨e, ?_⟩
      show writeData c _ q = .error e
      simp [writeData, h.disabled, h.started, h.header, hdisables, hclient, bind, Except.bind]
    | false =>
      rw [exec_write_encodes h hbegins hdisables, hstart]
      exact ⟨e', rfl⟩
  | .flush =>
    have hsome : p.buffered.isEmpty = false := by simpa [Pending.begins] using hbegins
    obtain ⟨e', hstart⟩ := hstart r.seenData
    refine ⟨e', ?_⟩
    show r.flush = _
    simp [flush, h.seen, hsome, h.disabled, h.started, hstart, bind, Except.bind]

theorem close_panics (hsend : ¬ p.Sendable) : ∃ e, r.close = .error e := by
  obtain ⟨e, hclient⟩ := h.panic r.client.header hsend
  exact ⟨e, by simp [close, sendHeader, h.sent, hclient, bind, Except.bind]⟩

end

/-! ### What is pending when the response begins -/

section
variable {p' : Pending} {rest : List Op}

theorem opening_split (hopen : p.opening c calls = (p', rest)) :
    ∃ before, calls = before ++ rest ∧ p' = before.foldl Pending.next p := by
  induction calls generalizing p with
  | nil => cases hopen; exact ⟨[], rfl, rfl⟩
  | cons op calls ih =>
    rw [opening] at hopen
    split at hopen
    · cases hopen
      exact ⟨[], rfl, rfl⟩
    · obtain ⟨before, hcalls, hp⟩ := ih hopen
      exact ⟨op :: before, congrArg (op :: ·) hcalls, hp⟩

theorem opening_begins (hopen : p.opening c calls = (p', op :: rest)) : p'.begins c op = true := by
  induction calls generalizing p with
  | nil => cases hopen
  | cons op' calls ih =>
    rw [opening] at hopen
    split at hopen
    · next hbegins =>
      cases hopen
      exact hbegins
    · exact ih hopen

end

theorem next_buffered (p : Pending) (op : Op) :
    (p.next op).buffered = p.buffered ++ written [op] := by
  cases op with
  | writeHeader code =>
    simp only [Pending.next]
    split
    · simp [written]
    · split <;> simp [written]
  | _ => simp [Pending.next, written]

theorem next_header (p : Pending) (op : Op) : (p.next op).header = headerAfter p.header [op] := by
  cases op with
  | writeHeader code =>
    simp only [Pending.next]
    split
    · rfl
    · split <;> rfl
  | _ => rfl

variable {h : Header}

theorem next_switched (hnext : (p.next op).switched = some h) :
    p.switched = some h ∨ h = p.header := by
  cases op with
  | writeHeader code =>
    simp only [Pending.next] at hnext
    split at hnext
    · cases hswitch : p.switched with
      | some h' => exact .inl (by simpa [hswitch] using hnext)
      | none => exact .inr (by simpa [hswitch] using hnext.symm)
    · split at hnext <;> exact .inl hnext
  | _ => exact .inl hnext

theorem foldl_next_buffered (before : List Op) (p : Pending) :
    (before.foldl Pending.next p).buffered = p.buffered ++ written before := by
  induction before generalizing p with
  | nil => simp
  | cons op before ih =>
    rw [foldl_cons, ih, next_buffered, written_cons op before, append_assoc]

theorem foldl_next_header (before : List Op) (p : Pending) :
    (before.foldl Pending.next p).header = headerAfter p.header before := by
  induction before generalizing p with
  | nil => rfl
  | cons op before ih =>
    rw [foldl_cons, ih, next_header]
    rfl

/-- A 101 was sent with a header of the handler. -/
theorem foldl_next_switched (header : Header) (pre : List Op)
    (hswitch : (pre.foldl Pending.next (.start header)).switched = some h) :
    ∃ before', before' <+: pre ∧ h = headerAfter header before' := by
  induction pre using reverseRecOn with
  | nil => cases hswitch
  | append_singleton pre op ih =>
    rw [foldl_concat] at hswitch
    obtain hswitch | rfl := next_switched hswitch
    · obtain ⟨before', hpre, hh⟩ := ih hswitch
      exact ⟨before', hpre.trans (prefix_append _ _), hh⟩
    · exact ⟨pre, prefix_append _ _, foldl_next_header pre _⟩

section
variable {rest : List Op} (hopen : (start header).opening c calls = (p, rest))
include hopen

/-- A response that is not compressed has a header of the handler. -/
theorem sentHeader_of_handler :
    ∃ before, before <+: calls ∧ p.sentHeader = headerAfter header before := by
  obtain ⟨before, hcalls, rfl⟩ := opening_split hopen
  have hpre : before <+: calls := ⟨_, hcalls.symm⟩
  rw [sentHeader]
  cases hswitch : (before.foldl Pending.next (.start header)).switched with
  | none => exact ⟨before, hpre, foldl_next_header before _⟩
  | some h =>
    obtain ⟨pre', hpre', rfl⟩ := foldl_next_switched header before hswitch
    exact ⟨pre', hpre'.trans hpre, rfl⟩

theorem written_opening : written calls = p.buffered ++ written rest := by
  obtain ⟨pre, rfl, rfl⟩ := opening_split hopen
  rw [foldl_next_buffered, written_append]
  rfl

/-! ## The response of the client -/

theorem handle_eq (cw : CompressionWriter) :
    ∃ r : ResponseWriter cw, Awaits r p ∧ handle c cw header calls = r.run c rest >>= close := by
  obtain ⟨r, h, hrun⟩ := run_awaits (c := c) (awaits_new cw header) calls
  rw [hopen] at h hrun
  exact ⟨r, h, by rw [handle, hrun]⟩

/-- A status that cannot be sent ends the response. -/
theorem handle_panics (cw : CompressionWriter) (hsend : ¬ p.Sendable) :
    ∃ e, handle c cw header calls = .error e := by
  obtain ⟨r, h, hhandle⟩ := handle_eq hopen cw
  rw [hhandle]
  match rest with
  | [] => exact close_panics h hsend
  | op :: rest =>
    obtain ⟨e, hexec⟩ := exec_panics h (opening_begins hopen) hsend
    rw [run_cons, hexec]
    exact ⟨e, rfl⟩

/-- The response when it is not compressed. -/
theorem handle_passes (cw : CompressionWriter) (hsend : p.Sendable)
    (hrest : ∀ op ∈ rest.head?, p.passes c op = true) :
    ∃ r : ResponseWriter cw, handle c cw header calls = .ok r ∧ r.compressionStarted = false ∧
      r.client.committed = some (p.sent, p.sentHeader) ∧
      r.client.body = match rest with
        | [] => p.buffered
        | rest => written rest := by
  obtain ⟨r, h, hhandle⟩ := handle_eq hopen cw
  rw [hhandle]
  match rest with
  | [] => exact close_awaits h hsend
  | op :: rest =>
    obtain ⟨r₁, hexec, h₁⟩ := exec_passes h (hrest op rfl) hsend
    obtain ⟨r₂, hrun, h₂⟩ := run_passing (c := c) h₁ rest
    obtain ⟨r₃, hclose, h₃⟩ := close_passing h₂
    rw [run_cons, hexec]
    refine ⟨r₃, ?_, h₃.started, h₃.committed, h₃.body.trans (written_cons op rest).symm⟩
    show (r₁.run c rest >>= close) = _
    rw [hrun]
    exact hclose

end

/-- The response when it is compressed. -/
theorem handle_encodes (cw : CompressionWriter) {rest : List Op}
    (hopen : (start header).opening c calls = (p, op :: rest)) (hsend : p.Sendable)
    (hpass : p.passes c op = false) :
    ∃ r : ResponseWriter cw, handle c cw header calls = .ok r ∧ r.compressionStarted = true ∧
      r.client.committed = some (p.sent, p.encodedHeader cw.algo) ∧
      if written calls = [] then
        r.client.body = (cw.after (openingFeeds p.buffered op ++ feeds false rest)).2
      else cw.decode r.client.body = some (written calls) := by
  have hwrote := written_opening hopen
  rw [written_cons op rest, ← append_assoc] at hwrote
  obtain ⟨r, h, hhandle⟩ := handle_eq hopen cw
  rw [hhandle, run_cons]
  obtain ⟨r₁, hexec, h₁⟩ := exec_encodes h (opening_begins hopen) hpass hsend
  obtain ⟨r₂, hrun, h₂⟩ := run_encoding (c := c) h₁ rest
  obtain ⟨r₃, hclose, hstarted, hcommit, hbody⟩ := close_encoding h₂
  refine ⟨r₃, ?_, hstarted, hcommit, ?_⟩
  · rw [hexec]
    show (r₁.run c rest >>= close) = _
    rw [hrun]
    exact hclose
  have hseen : (!(p.buffered ++ written [op]).isEmpty || !(written rest).isEmpty) =
      !(written calls).isEmpty := by
    rw [hwrote, isEmpty_append _ (written rest), Bool.not_and]
  rw [hseen] at hbody
  split
  · next hnone =>
    have hfirst : (p.buffered ++ written [op]).isEmpty = true := by
      rw [hwrote] at hnone
      exact isEmpty_iff.mpr (append_eq_nil_iff.mp hnone).1
    simpa [hnone, hfirst] using hbody
  · next hsome =>
    have hclosed : r₃.client.body = cw.closed (cw.after (openingFeeds p.buffered op ++
        feeds (!(p.buffered ++ written [op]).isEmpty) rest)) := by
      simpa [hsome] using hbody
    have hcontent : Feed.content (openingFeeds p.buffered op ++
        feeds (!(p.buffered ++ written [op]).isEmpty) rest) = written calls := by
      rw [hwrote, Feed.content_append, content_feeds, content_openingFeeds]
    rw [hclosed, cw.lossless, hcontent]

theorem preserved_passing {result : Except Panic (ResponseWriter cw)} {status : ℤ}
    (hok : result = .ok r) (hstarted : r.compressionStarted = false)
    (hcommit : r.client.committed = some (status, h))
    (hhdr : ∃ before, before <+: calls ∧ h = headerAfter header before) :
    Preserved header calls result ↔
      status = (firstFinal calls).getD 200 ∧ r.client.body = written calls := by
  constructor
  · rintro ⟨r', h', hok', hcommit', hcase⟩
    obtain rfl : r = r' := ok.inj (hok.symm.trans hok')
    rw [hstarted] at hcase
    exact ⟨congrArg Prod.fst (Option.some.inj (hcommit.symm.trans hcommit')), hcase.1⟩
  · rintro ⟨rfl, hbody⟩
    refine ⟨r, h, hok, hcommit, ?_⟩
    rw [hstarted]
    exact ⟨hbody, hhdr⟩

theorem preserved_encoding {result : Except Panic (ResponseWriter cw)} {status : ℤ}
    (hok : result = .ok r) (hstarted : r.compressionStarted = true)
    (hcommit : r.client.committed = some (status, h)) :
    Preserved header calls result ↔ status = (firstFinal calls).getD 200 ∧
      get h "Content-Encoding" = cw.algo ∧ cw.decode r.client.body = some (written calls) := by
  constructor
  · rintro ⟨r', h', hok', hcommit', hcase⟩
    obtain rfl : r = r' := ok.inj (hok.symm.trans hok')
    obtain ⟨hstat, rfl⟩ := Prod.mk.inj (Option.some.inj (hcommit.symm.trans hcommit'))
    rw [hstarted] at hcase
    exact ⟨hstat, hcase.2, hcase.1⟩
  · rintro ⟨rfl, hencoding, hdecode⟩
    refine ⟨r, h, hok, hcommit, ?_⟩
    rw [hstarted]
    exact ⟨hdecode, hencoding⟩

theorem get_set (h : Header) (key value : String) : get (h.set key value) key = value := by
  simp [get, Header.set]

/-- Only a 101 sent before can name another encoding. -/
theorem get_encodedHeader (p : Pending) (algo : String) :
    get (p.encodedHeader algo) "Content-Encoding" = algo ↔
      ∀ h, p.switched = some h → get h "Content-Encoding" = algo := by
  cases hswitch : p.switched with
  | none => simp [encodedHeader, hswitch, get_set]
  | some h => simp [encodedHeader, hswitch]

/-- **Preservation**: the client gets the response of the handler exactly when the status
    is known and nothing is held back at the moment it has to be. -/
theorem preserved_iff (c : CompressionHandler) (cw : CompressionWriter) (header : Header)
    (calls : List Op) :
    Preserved header calls (handle c cw header calls) ↔ Keeps c cw header calls := by
  rcases hopen : (start header).opening c calls with ⟨p, rest⟩
  by_cases hsend : p.Sendable
  swap
  · obtain ⟨e, hpanic⟩ := handle_panics hopen cw hsend
    constructor
    · rintro ⟨r, h, hok, -⟩
      rw [hpanic] at hok
      cases hok
    · intro hkeeps
      simp [Keeps, hopen, hsend] at hkeeps
  have hwrote := written_opening hopen
  match rest with
  | [] =>
    obtain ⟨r, hok, hstarted, hcommit, hbody⟩ := handle_passes hopen cw hsend (by simp)
    have hall : r.client.body = written calls := by simpa [hwrote] using hbody
    rw [preserved_passing hok hstarted hcommit (sentHeader_of_handler hopen)]
    simp [Keeps, hopen, hsend, hall]
  | op :: rest =>
    cases hpass : p.passes c op with
    | true =>
      obtain ⟨r, hok, hstarted, hcommit, hbody⟩ :=
        handle_passes hopen cw hsend (by simpa using hpass)
      -- the bytes held back are missing from the body
      have hmissing : r.client.body = written calls ↔ p.buffered = [] := by
        rw [hbody, hwrote]
        exact self_eq_append_left
      rw [preserved_passing hok hstarted hcommit (sentHeader_of_handler hopen), hmissing]
      simp [Keeps, hopen, hsend, hpass]
    | false =>
      obtain ⟨r, hok, hstarted, hcommit, hbody⟩ := handle_encodes cw hopen hsend hpass
      have hdecodes : cw.decode r.client.body = some (written calls) ↔ (written calls = [] →
          cw.decode (cw.after (openingFeeds p.buffered op ++ feeds false rest)).2 = some []) := by
        split at hbody
        · next hnone => simp [hnone, hbody]
        · next hsome => simp [hsome, hbody]
      rw [preserved_encoding hok hstarted hcommit, get_encodedHeader, hdecodes]
      simp [Keeps, hopen, hsend, hpass]

/-- A handler for all content types, and for bodies of 1024 bytes and more. -/
def anyType : CompressionHandler where
  parseMediaType s := .ok ⟨s, ∅⟩
  excludedContentTypes := []
  includedContentTypes := []
  minSize := 1024

/-- A handler that names an encoding of its own between two writes. -/
def lateEncoding : List Op :=
  [.write [1], .header (·.set "Content-Encoding" "gzip"), .write [2]]

/-- The byte held back is lost: the body is the second write only, sent under the encoding of
    the handler and not under the one that was negotiated. -/
theorem late_encoding_loses :
    written lateEncoding = [1, 2] ∧
      ((handle anyType ⟨.identity UInt8, "br"⟩ ∅ lateEncoding).toOption.map fun r =>
        (r.client.body, r.client.committed.map fun s => (s.1, get s.2 "Content-Encoding"))) =
          some ([2], some (200, "gzip")) ∧
      ¬ Preserved ∅ lateEncoding (handle anyType ⟨.identity UInt8, "br"⟩ ∅ lateEncoding) := by
  refine ⟨by decide, by decide, ?_⟩
  rintro ⟨r, h, hok, -, hcase⟩
  have hstarted : (handle anyType ⟨.identity UInt8, "br"⟩ ∅ lateEncoding).toOption.map
      (fun r => (r.compressionStarted, r.client.body)) = some (false, [2]) := by decide
  rw [hok] at hstarted
  obtain ⟨hfalse, hbody⟩ := Prod.mk.inj (Option.some.inj hstarted)
  rw [hfalse] at hcase
  exact absurd (hbody.symm.trans hcase.1) (by decide)

end Ingress.Compress
