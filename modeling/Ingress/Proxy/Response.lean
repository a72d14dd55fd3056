import Ingress.Framework.Chunked
import Ingress.Framework.Text
import Ingress.Http.ResponseWriter

/-! # The Responses of a Backend

    `handleResponse` of `pkg/proxy/fast/connpool.go`: the response to a request is read from
    a connection and written to the client.  What `fasthttp` and `net/http/httputil` read is
    given by readers; `handleResponse` decides which of them read the message, and so how
    long it is.  The chunked reader is that of `Chunked`.

    * `handleResponse`: on the bytes that have arrived.  It has no result before the whole
      message is there; it may fail at any time, when the client is gone or the connection is
      closed.  A message that is not there when the backend has closed the connection fails.
    * `Message`: how long the response to a request is.
    * `handleResponse_done`: it takes one message and no more.
    * `handleResponse_whole_iff`: when the body is whole, also at the end of the input. -/

open Incremental Text

namespace Ingress.FastProxy

/-! ## Header fields -/

/-- Header fields in order, with normalized keys. -/
abbrev Fields := List (String × String)

/-- The key as `fasthttp` normalizes it. -/
def normalizeKey (key : String) : String :=
  String.ofList (Http.capitalize true key.toList)

def Fields.peek (h : Fields) (key : String) : String :=
  ((h.find? fun f => f.1 = normalizeKey key).map Prod.snd).getD ""

def Fields.del (h : Fields) (key : String) : Fields :=
  h.filter fun f => f.1 ≠ normalizeKey key

def Fields.add (h : Fields) (key value : String) : Fields :=
  h ++ [(normalizeKey key, value)]

def hopHeaders : List String :=
  ["Connection", "Proxy-Connection", "Keep-Alive", "Proxy-Authenticate", "Proxy-Authorization",
    "Te", "Trailer", "Transfer-Encoding", "Upgrade"]

def removeConnectionHeaders (h : Fields) : Fields :=
  ((h.peek "Connection").toList.splitOn ',').foldl (fun h sf =>
    if (trim isSpace sf).isEmpty then h else h.del (String.ofList (trim isSpace sf))) h

def fixPragmaCacheControl (h : Fields) : Fields :=
  if h.peek "Pragma" = "no-cache" && (h.peek "Cache-Control").isEmpty then
    (h.del "Cache-Control").add "Cache-Control" "no-cache"
  else h

/-- The fields that are passed on. -/
def endToEnd (h : Fields) : Fields :=
  hopHeaders.foldl Fields.del (removeConnectionHeaders h)

/-- Equality of keys up to case. -/
def equalFold (s t : List Char) : Bool :=
  s.map Char.toLower = t.map Char.toLower

/-- The fields of a trailer, under the key of an announced field or behind
    `http.TrailerPrefix`. -/
def passTrailer (announcedTrailers : String) (trailer : Fields) : Fields :=
  trailer.map fun f =>
    if !announcedTrailers.isEmpty && (announcedTrailers.toList.splitOn ',').any fun s =>
        equalFold s (trimSpace f.1).toList then f
    else ("Trailer:" ++ f.1, f.2)

/-! ## Reading a response -/

/-- `ResponseHeader`.  The content length is -1 when the body is chunked and -2 when there is
    none given. -/
structure ResponseHeader where
  statusCode : ℤ
  contentLength : ℤ
  fields : Fields
  contentLength_ge : -2 ≤ contentLength

/-- What reads the parts of a response: `Header.Read`, a copy from `NewChunkedReader`, and
    `Header.ReadTrailer`. -/
structure Readers where
  header : Reader UInt8 ResponseHeader
  chunked : Reader UInt8 (List UInt8)
  trailer : Reader UInt8 Fields

def isBodyAllowedForStatus (status : ℤ) : Bool :=
  !(100 ≤ status && status ≤ 199) && status ≠ 204 && status ≠ 304

def noResponseBodyExpected (requestMethod : String) : Bool :=
  requestMethod = "HEAD"

/-- What was written to the client. -/
structure Response where
  informational : List (ℤ × Fields)
  statusCode : ℤ
  header : Fields
  body : List UInt8
  trailer : Fields

/-- The outcome of `handleResponse`: the message is not complete, it was refused, the
    connection is upgraded, or the response was written. -/
inductive Handled where
  | more
  | failed
  | upgraded (n : ℕ)
  | done (res : Response) (n : ℕ)

/-- The loop over the headers: responses 1xx are passed on, up to the final one. -/
def readHeader (header : Reader UInt8 ResponseHeader) :
    ℕ → List UInt8 → Reading (List (ℤ × Fields) × ResponseHeader)
  | 0, _ => .more -- every header takes a byte
  | fuel + 1, bs =>
    match header.read bs with
    | .more => .more
    | .failed => .failed
    | .done h n =>
      if Http.Informational h.statusCode then
        match readHeader header fuel (bs.drop n) with
        | .more => .more
        | .failed => .failed
        | .done (informational, final) m =>
          .done ((h.statusCode, endToEnd (fixPragmaCacheControl h.fields)) :: informational, final)
            (n + m)
      else .done ([], { h with fields := fixPragmaCacheControl h.fields }) n

/-- The body and the trailer.  `eof`: the backend has closed the connection, and no more bytes
    will arrive. -/
def readBody (rd : Readers) (reqMethod : String) (eof : Bool) (h : ResponseHeader)
    (bs : List UInt8) : Reading (List UInt8 × Fields) :=
  if noResponseBodyExpected reqMethod then .done ([], []) 0
  else if !isBodyAllowedForStatus h.statusCode then .done ([], []) 0
  else if h.contentLength = 0 then .done ([], []) 0
  else if h.contentLength = -1 then
    match rd.chunked.read bs with
    | .more => .more
    | .failed => .failed
    | .done body n =>
      match rd.trailer.read (bs.drop n) with
      | .more => .more
      | .failed => .failed
      | .done trailer m => .done (body, trailer) (n + m)
  else if h.contentLength = -2 then
    if eof then .done (bs, []) bs.length else .more
  else if h.contentLength.toNat ≤ bs.length then
    .done (bs.take h.contentLength.toNat, []) h.contentLength.toNat
  else if eof then .done (bs, []) bs.length -- the copy ends at the end of the input
  else .more

def handleResponse (rd : Readers) (reqMethod : String) (eof : Bool) (bs : List UInt8) : Handled :=
  match readHeader rd.header bs.length bs with
  | .more => .more
  | .failed => .failed
  | .done (informational, h) n =>
    if h.statusCode = 101 then .upgraded n
    else
      let announcedTrailers := h.fields.peek "Trailer"
      let header :=
        if announcedTrailers.isEmpty then endToEnd h.fields
        else (endToEnd h.fields).add "Trailer" announcedTrailers
      match readBody rd reqMethod eof h (bs.drop n) with
      | .more => .more
      | .failed => .failed
      | .done (body, trailer) m =>
        .done ⟨informational, h.statusCode, header, body, passTrailer announcedTrailers trailer⟩
          (n + m)

/-! ## The length of a response -/

/-- The response has no body, whatever its header says. -/
def NoBody (reqMethod : String) (h : ResponseHeader) : Prop :=
  reqMethod = "HEAD" ∨ isBodyAllowedForStatus h.statusCode = false

/-- The body of a response with the header takes the first `n` bytes. -/
inductive Body (rd : Readers) (reqMethod : String) (eof : Bool) (h : ResponseHeader)
    (bs : List UInt8) : ℕ → Prop where
  | none : NoBody reqMethod h → Body rd reqMethod eof h bs 0
  | chunked {body trailer n m} : ¬ NoBody reqMethod h → h.contentLength = -1 →
      rd.chunked.read bs = .done body n → rd.trailer.read (bs.drop n) = .done trailer m →
      Body rd reqMethod eof h bs (n + m)
  | length : ¬ NoBody reqMethod h → 0 ≤ h.contentLength → h.contentLength.toNat ≤ bs.length →
      Body rd reqMethod eof h bs h.contentLength.toNat
  /-- The body ends with the connection: it has no length, or the connection was closed too
      early. -/
  | untilClose : ¬ NoBody reqMethod h →
      h.contentLength = -2 ∨ 0 ≤ h.contentLength ∧ bs.length < h.contentLength.toNat →
      eof = true → Body rd reqMethod eof h bs bs.length

/-- The response to a request takes the first `n` bytes: responses 1xx, and the final one. -/
inductive Message (rd : Readers) (reqMethod : String) (eof : Bool) : List UInt8 → ℕ → Prop where
  | informational {bs h n m} : rd.header.read bs = .done h n → Http.Informational h.statusCode →
      Message rd reqMethod eof (bs.drop n) m → Message rd reqMethod eof bs (n + m)
  | final {bs h n m} : rd.header.read bs = .done h n → ¬ Http.Informational h.statusCode →
      Body rd reqMethod eof h (bs.drop n) m → Message rd reqMethod eof bs (n + m)

variable {rd : Readers} {reqMethod : String} {eof : Bool} {h h' : ResponseHeader}
  {bs cs : List UInt8} {n m : ℕ}

theorem Body.le (hbody : Body rd reqMethod eof h bs n) : n ≤ bs.length := by
  cases hbody with
  | none _ => exact Nat.zero_le _
  | chunked _ _ hbody htrailer =>
    have hle := (rd.chunked.read_pos hbody).2
    have hle' := (rd.trailer.read_pos htrailer).2
    rw [List.length_drop] at hle'
    omega
  | length _ _ hle => exact hle
  | untilClose _ _ _ => exact le_rfl

theorem Message.le (hmsg : Message rd reqMethod eof bs n) : n ≤ bs.length := by
  induction hmsg with
  | informational hread _ _ ih =>
    have hle := (rd.header.read_pos hread).2
    rw [List.length_drop] at ih
    omega
  | final hread _ hbody =>
    have hle := (rd.header.read_pos hread).2
    have hle' := hbody.le
    rw [List.length_drop] at hle'
    omega

theorem Message.pos (hmsg : Message rd reqMethod eof bs n) : 0 < n := by
  cases hmsg with
  | informational hread _ _ | final hread _ _ =>
    exact Nat.add_pos_left (rd.header.read_pos hread).1 _

/-- What arrives behind a body does not change it, unless it ends with the connection. -/
theorem Body.append (hbody : Body rd reqMethod false h bs n) (cs : List UInt8) :
    Body rd reqMethod false h (bs ++ cs) n := by
  cases hbody with
  | none hnone => exact .none hnone
  | chunked hsome hlen hread htrailer =>
    have htrailer' := rd.trailer.read_append cs htrailer
    rw [← rd.chunked.drop_append hread] at htrailer'
    exact .chunked hsome hlen (rd.chunked.read_append cs hread) htrailer'
  | length hsome hlen hle =>
    exact .length hsome hlen (hle.trans (by rw [List.length_append]; exact Nat.le_add_right _ _))
  | untilClose _ _ heof => cases heof

theorem Message.append (hmsg : Message rd reqMethod false bs n) (cs : List UInt8) :
    Message rd reqMethod false (bs ++ cs) n := by
  induction hmsg with
  | informational hread hinfo _ ih =>
    rw [← rd.header.drop_append hread] at ih
    exact .informational (rd.header.read_append cs hread) hinfo ih
  | final hread hinfo hbody =>
    refine .final (rd.header.read_append cs hread) hinfo ?_
    rw [rd.header.drop_append hread]
    exact hbody.append cs

/-- A message that is complete is so when the connection is closed. -/
theorem Message.close (hmsg : Message rd reqMethod false bs n) :
    Message rd reqMethod true bs n := by
  induction hmsg with
  | informational hread hinfo _ ih => exact .informational hread hinfo ih
  | final hread hinfo hbody =>
    refine .final hread hinfo ?_
    cases hbody with
    | none hnone => exact .none hnone
    | chunked hsome hlen hread htrailer => exact .chunked hsome hlen hread htrailer
    | length hsome hlen hle => exact .length hsome hlen hle
    | untilClose _ _ heof => cases heof

/-! ## `handleResponse` takes one message -/

open Reading

/-- The headers up to the final one are the beginning of a message. -/
theorem readHeader_done {fuel : ℕ} {informational : List (ℤ × Fields)}
    (hread : readHeader rd.header fuel bs = .done (informational, h) n) :
    ∃ h' : ResponseHeader, h = { h' with fields := fixPragmaCacheControl h'.fields } ∧
      ∀ m, Body rd reqMethod eof h' (bs.drop n) m → Message rd reqMethod eof bs (n + m) := by
  induction fuel generalizing bs informational n with
  | zero => cases hread
  | succ fuel ih =>
    rw [readHeader] at hread
    split at hread
    · cases hread
    · cases hread
    next h₁ n₁ hfirst =>
    split at hread
    · next hinfo =>
      split at hread
      · cases hread
      · cases hread
      next informational' final m₁ hrest =>
      obtain ⟨hpair, rfl⟩ := done.inj hread
      obtain ⟨-, rfl⟩ := Prod.mk.inj hpair
      obtain ⟨h', hfix, hmsg⟩ := ih hrest
      refine ⟨h', hfix, fun m hbody => ?_⟩
      rw [Nat.add_assoc]
      refine .informational hfirst hinfo (hmsg m ?_)
      rwa [List.drop_drop]
    · next hfinal =>
      obtain ⟨hpair, rfl⟩ := done.inj hread
      obtain ⟨-, rfl⟩ := Prod.mk.inj hpair
      exact ⟨h₁, rfl, fun m hbody => .final hfirst hfinal hbody⟩

theorem readBody_done {body : List UInt8} {trailer : Fields}
    (hread : readBody rd reqMethod eof { h with fields := fixPragmaCacheControl h.fields } bs =
      .done (body, trailer) n) : Body rd reqMethod eof h bs n := by
  have hge := h.contentLength_ge
  dsimp only [readBody] at hread
  split at hread
  · next hhead =>
    obtain ⟨-, rfl⟩ := done.inj hread
    exact .none (.inl (by simpa [noResponseBodyExpected] using hhead))
  next hhead =>
  split at hread
  · next hstat =>
    obtain ⟨-, rfl⟩ := done.inj hread
    exact .none (.inr (by simpa using hstat))
  next hstat =>
  have hsome : ¬ NoBody reqMethod h := by
    rintro (hnone | hnone)
    · exact hhead (by simp [noResponseBodyExpected, hnone])
    · exact hstat (by simp [hnone])
  split at hread
  · next hzero =>
    obtain ⟨-, rfl⟩ := done.inj hread
    have hlen : Body rd reqMethod eof h bs h.contentLength.toNat :=
      .length hsome hzero.ge (by simp [hzero])
    rwa [hzero] at hlen
  next hzero =>
  split at hread
  · next hchunked =>
    split at hread
    · cases hread
    · cases hread
    next body' n₁ hbody =>
    split at hread
    · cases hread
    · cases hread
    next trailer' m₁ htrailer =>
    obtain ⟨-, rfl⟩ := done.inj hread
    exact .chunked hsome hchunked hbody htrailer
  next hchunked =>
  split at hread
  · next hunknown =>
    split at hread
    · next heof =>
      obtain ⟨-, rfl⟩ := done.inj hread
      exact .untilClose hsome (.inl hunknown) heof
    · cases hread
  next hunknown =>
  have hgiven : 0 ≤ h.contentLength := by omega
  split at hread
  · next hle =>
    obtain ⟨-, rfl⟩ := done.inj hread
    exact .length hsome hgiven hle
  next hshort =>
  split at hread
  · next heof =>
    obtain ⟨-, rfl⟩ := done.inj hread
    exact .untilClose hsome (.inr ⟨hgiven, Nat.lt_of_not_le hshort⟩) heof
  · cases hread

/-- **One message**: what `handleResponse` takes from the connection is the response to the
    request. -/
theorem handleResponse_done {res : Response}
    (hdone : handleResponse rd reqMethod eof bs = .done res n) : Message rd reqMethod eof bs n := by
  rw [handleResponse] at hdone
  split at hdone
  · cases hdone
  · cases hdone
  next informational h₁ n₁ hhdr =>
  split at hdone
  · cases hdone
  split at hdone
  · cases hdone
  · cases hdone
  next body trailer m₁ hbody =>
  obtain ⟨-, rfl⟩ := Handled.done.inj hdone
  obtain ⟨h', rfl, hmsg⟩ := readHeader_done hhdr
  exact hmsg m₁ (readBody_done hbody)

/-- An upgraded connection begins behind a message without a body. -/
theorem handleResponse_upgraded (hup : handleResponse rd reqMethod eof bs = .upgraded n) :
    Message rd reqMethod eof bs n := by
  rw [handleResponse] at hup
  split at hup
  · cases hup
  · cases hup
  next informational h₁ n₁ hhdr =>
  split at hup
  · next hswitching =>
    obtain rfl := Handled.upgraded.inj hup
    obtain ⟨h', rfl, hmsg⟩ := readHeader_done hhdr
    refine hmsg 0 (.none (.inr ?_))
    simp [show h'.statusCode = 101 from hswitching, isBodyAllowedForStatus]
  split at hup <;> cases hup

/-! ## Truncated responses -/

/-- A trailer: lines that are not empty, and an empty one. -/
inductive TrailerSection : List UInt8 → Prop where
  | last : TrailerSection [13, 10]
  | lastFeed : TrailerSection [10]
  | field {line rest} : line ≠ [] → line ≠ [13] → 10 ∉ line → TrailerSection rest →
      TrailerSection (line ++ 10 :: rest)

/-- The readers of a connection: that of `NewChunkedReader`, and one that takes a trailer. -/
structure Readers.Standard (rd : Readers) : Prop where
  chunked : rd.chunked = Chunked.reader
  trailer : ∀ bs fields n, rd.trailer.read bs = .done fields n → TrailerSection (bs.take n)

/-- The body is the whole one that the header announces, and the input behind it and its
    trailer begins after `n` bytes.  The input begins with no other body in chunks. -/
structure Whole (h : ResponseHeader) (bs body : List UInt8) (n : ℕ) : Prop where
  length : 0 ≤ h.contentLength → h.contentLength.toNat ≤ bs.length ∧
    body = bs.take h.contentLength.toNat ∧ n = h.contentLength.toNat
  chunked : h.contentLength = -1 → ∃ coding trailer rest, bs = coding ++ (trailer ++ rest) ∧
    Chunked.Coding coding body ∧ TrailerSection trailer ∧ n = coding.length + trailer.length ∧
    ∀ coding' body', coding' <+: bs → Chunked.Coding coding' body' → coding' = coding ∧ body' = body

/-- A body in chunks and its trailer. -/
theorem Readers.Standard.whole (hrd : rd.Standard) (hchunked : h.contentLength = -1)
    {body : List UInt8} {trailer : Fields} (hbody : rd.chunked.read bs = .done body n)
    (htrailer : rd.trailer.read (bs.drop n) = .done trailer m) : Whole h bs body (n + m) := by
  rw [hrd.chunked] at hbody
  obtain ⟨coding, rest, rfl, rfl, hcoding⟩ := Chunked.coding_of_readChunks hbody
  rw [List.drop_left] at htrailer
  refine ⟨by omega, fun _ => ⟨coding, rest.take m, rest.drop m, by simp, hcoding,
    hrd.trailer _ _ _ htrailer, ?_, ?_⟩⟩
  · rw [List.length_take, min_eq_left (rd.trailer.read_pos htrailer).2]
  · rintro coding' body' ⟨rest', heq⟩ hcoding'
    exact hcoding'.unique hcoding heq

theorem readBody_whole_iff (hrd : rd.Standard) (hsome : ¬ NoBody reqMethod h) :
    (∀ body trailer n, readBody rd reqMethod eof h bs = .done (body, trailer) n →
      Whole h bs body n) ↔
    (eof = true → 0 ≤ h.contentLength → h.contentLength.toNat ≤ bs.length) := by
  obtain ⟨hhead, hstat⟩ : reqMethod ≠ "HEAD" ∧ isBodyAllowedForStatus h.statusCode = true := by
    simpa [NoBody] using hsome
  simp only [readBody, noResponseBodyExpected, hhead, hstat, decide_false, Bool.false_eq_true,
    Bool.not_true, if_false]
  constructor
  · intro hwhole heof hgiven
    by_contra hshort
    refine hshort ((hwhole bs [] bs.length ?_).length hgiven).1
    have hpos : h.contentLength ≠ 0 ∧ h.contentLength ≠ -1 ∧ h.contentLength ≠ -2 := by omega
    simp [hpos, hshort, heof]
  · intro hlong body trailer n hread
    split at hread
    · next hzero =>
      cases hread
      exact ⟨fun _ => by simp [hzero], by omega⟩
    split at hread
    · next hchunked =>
      split at hread
      · cases hread
      · cases hread
      next hbody =>
      split at hread
      · cases hread
      · cases hread
      next htrailer =>
      cases hread
      exact hrd.whole hchunked hbody htrailer
    split at hread
    · exact ⟨by omega, by omega⟩
    split at hread
    · next hle =>
      cases hread
      exact ⟨fun _ => ⟨hle, rfl, rfl⟩, by omega⟩
    split at hread
    · next hshort heof => exact ⟨fun hgiven => absurd (hlong heof hgiven) hshort, by omega⟩
    · cases hread

/-- **A response that is reported as complete is complete** exactly when the backend does not
    close the connection before the end of a body whose length it announced. -/
theorem handleResponse_whole_iff (hrd : rd.Standard) {informational : List (ℤ × Fields)}
    (hheader : readHeader rd.header bs.length bs = .done (informational, h) n)
    (hsome : ¬ NoBody reqMethod h) :
    (∀ res m, handleResponse rd reqMethod eof bs = .done res m →
      ∃ k, m = n + k ∧ Whole h (bs.drop n) res.body k) ↔
    (eof = true → 0 ≤ h.contentLength → h.contentLength.toNat ≤ (bs.drop n).length) := by
  have hswitching : h.statusCode ≠ 101 := by
    intro hswitching
    exact hsome (.inr (by simp [hswitching, isBodyAllowedForStatus]))
  rw [← readBody_whole_iff hrd hsome]
  simp only [handleResponse, hheader, if_neg hswitching]
  constructor
  · intro hwhole body trailer k hread
    rw [hread] at hwhole
    obtain ⟨k', hk, hbody⟩ := hwhole _ _ rfl
    rwa [Nat.add_left_cancel hk]
  · intro hwhole res m hdone
    split at hdone
    · cases hdone
    · cases hdone
    next hread =>
    cases hdone
    exact ⟨_, rfl, hwhole _ _ _ hread⟩

/-- The header of a response with three bytes. -/
def threeHeader : ResponseHeader :=
  ⟨200, 3, [("Content-Length", "3")], by decide⟩

def threeBytes : List UInt8 :=
  "HTTP/1.1 200 OK\r\nContent-Length: 3\r\n\r\n".toList.map fun c => UInt8.ofNat c.toNat

theorem crlf_length_pos : 0 < ([13, 10] : List UInt8).length := by decide

/-- Readers that know this header, and a trailer without fields. -/
def threeReaders : Readers where
  header := .word threeBytes (by decide) threeHeader
  chunked := Chunked.reader
  trailer := .word [13, 10] crlf_length_pos []

theorem threeReaders_standard : threeReaders.Standard where
  chunked := rfl
  trailer := by
    intro bs fields n hread
    dsimp only [threeReaders, Reader.word] at hread
    split at hread
    · next hprefix =>
      obtain ⟨-, rfl⟩ := done.inj hread
      obtain ⟨rest, rfl⟩ := List.isPrefixOf_iff_prefix.mp hprefix
      exact .last
    · split at hread <;> cases hread

theorem three_whole : threeReaders.Standard ∧ readHeader threeReaders.header 41
      (threeBytes ++ [1, 2, 3]) = .done ([], threeHeader) 38 ∧ ¬ NoBody "GET" threeHeader ∧
    ∀ res m, handleResponse threeReaders "GET" true (threeBytes ++ [1, 2, 3]) = .done res m →
      ∃ k, m = 38 + k ∧ Whole threeHeader ((threeBytes ++ [1, 2, 3]).drop 38) res.body k := by
  have hsome : ¬ NoBody "GET" threeHeader := by
    simp [NoBody, threeHeader, isBodyAllowedForStatus]
  exact ⟨threeReaders_standard, rfl, hsome,
    (handleResponse_whole_iff threeReaders_standard rfl hsome).mpr fun _ _ => by decide⟩

/-- The backend closes the connection after one of the bytes. -/
theorem three_truncated : ∃ res, handleResponse threeReaders "GET" true (threeBytes ++ [1]) =
    .done res 39 ∧ res.body = [1] := ⟨_, rfl, rfl⟩

end Ingress.FastProxy
