import Ingress.Framework.Bufio

/-! # TCP Router

    Before a connection is handled, the TCP router looks at the first bytes of
    the client (`pkg/server/router/tcp`): is it Postgres, is it TLS, and for
    which server.  The bytes it has seen are put in front of the connection that
    the handler gets.

    * `isPostgres`, `clientHelloInfo`, `getPeeked`: what is looked at.
    * `Conn`: the connection of a handler.
    * `Router.serveTCP`: the code.
    * `serveTCP_bytes_iff`: when the handler reads the bytes of the client. -/

open List Bufio

namespace Ingress.TcpRouter

/-! ## Sniffing -/

/-- The size of the buffer. -/
def defaultBufSize : Nat := 4096

/-- The largest record that is looked at. -/
def maxTLSRecordLen : Nat := 16384 + 2048

/-- The header of a TLS record. -/
def recordHeaderLen : Nat := 5

/-- The message that asks Postgres for TLS. -/
def postgresStartTLSMsg : List UInt8 := [0, 0, 0, 8, 4, 210, 22, 47]

variable {σ : Type}

/-- The loop of `isPostgres`: the first bytes one after the other. -/
def isPostgresLoop (source : Source UInt8 σ) :
    List Nat → Reader UInt8 σ → Except Err Bool × Reader UInt8 σ
  | [], br => (.ok true, br)
  | i :: is, br =>
    match br.peek source i with
    | ((_, some err), br) => (.error err, br)
    | ((peeked, none), br) =>
      if peeked = postgresStartTLSMsg.take i then isPostgresLoop source is br
      else (.ok false, br)

def isPostgres (source : Source UInt8 σ) : Reader UInt8 σ → Except Err Bool × Reader UInt8 σ :=
  isPostgresLoop source [1, 2, 3, 4, 5, 6, 7, 8]

/-- `getPeeked`: everything in the buffer. -/
def getPeeked (source : Source UInt8 σ) (br : Reader UInt8 σ) : List UInt8 :=
  match br.peek source br.buf.length with
  | ((_, some _), _) => []
  | ((peeked, none), _) => peeked

/-- What was found out about a client. -/
structure ClientHello where
  serverName : String
  protos : List String
  isTLS : Bool
  peeked : List UInt8

/-- What `clientHelloInfo` fails with. -/
inductive HelloError where
  | firstByte (err : Err)
  | headers (err : Err)
  | oversizedRecord (recLen : Nat)
  | bytes (err : Err)

/-- The length of a record, from its header. -/
def recLen (hdr : List UInt8) : Nat :=
  (hdr.getD 3 0).toNat <<< 8 ||| (hdr.getD 4 0).toNat

/-- The record that was peeked with `br`, of which `sniff` reads the server name
    and the protocols. -/
def readHello (sniff : List UInt8 → String × List String) (source : Source UInt8 σ) (n : Nat)
    (br : Reader UInt8 σ) : Except HelloError ClientHello × Reader UInt8 σ :=
  match br.peek source n with
  | ((_, some err), br) => (.error (.bytes err), br)
  | ((helloBytes, none), br) =>
    let (serverName, protos) := sniff helloBytes
    (.ok { serverName, protos, isTLS := true, peeked := getPeeked source br }, br)

def clientHelloInfo (sniff : List UInt8 → String × List String) (source : Source UInt8 σ)
    (br : Reader UInt8 σ) : Except HelloError ClientHello × Reader UInt8 σ :=
  match br.peek source 1 with
  | ((_, some err), br) => (.error (.firstByte err), br)
  | ((hdr, none), br) =>
    if hdr ≠ [0x16] then
      -- SSLv2 counts as TLS
      (.ok { serverName := "", protos := [], isTLS := hdr = [0x80], peeked := getPeeked source br },
        br)
    else
      match br.peek source recordHeaderLen with
      | ((_, some err), br) => (.error (.headers err), br)
      | ((hdr, none), br) =>
        if maxTLSRecordLen < recLen hdr then (.error (.oversizedRecord (recLen hdr)), br)
        else if defaultBufSize < recordHeaderLen + recLen hdr then
          -- a second reader, which the bytes are peeked and replayed from
          let (hello, outer) := readHello sniff source.buffered (recordHeaderLen + recLen hdr)
            (Reader.new (recordHeaderLen + recLen hdr) br)
          (hello, outer.src)
        else readHello sniff source (recordHeaderLen + recLen hdr) br

/-! ## Connections -/

/-- A connection with the bytes that were peeked from it. -/
structure Conn (σ : Type) where
  peeked : List UInt8
  conn : σ

/-- `Read` of a connection. -/
def Conn.read (source : Source UInt8 σ) (n : Nat) (c : Conn σ) :
    (List UInt8 × Option Err) × Conn σ :=
  if 0 < c.peeked.length then
    ((c.peeked.take n, none), { c with peeked := c.peeked.drop n })
  else
    let (result, conn) := source.read n c.conn
    (result, { c with conn })

/-- The bytes that reads of a connection give. -/
def Conn.bytes (source : Source UInt8 σ) (c : Conn σ) : List UInt8 :=
  c.peeked ++ source.items c.conn

open Conn

theorem Conn.bytes_read (source : Source UInt8 σ) (n : Nat) (c : Conn σ) :
    (c.read source n).1.1 ++ (c.read source n).2.bytes source = c.bytes source := by
  unfold read bytes
  split
  · simp [← append_assoc]
  · next h =>
    have hnil : c.peeked = [] := length_eq_zero_iff.mp (by omega)
    simpa [hnil] using source.items_read n c.conn

theorem Conn.length_read_le (src : Source UInt8 σ) (n : Nat) (c : Conn σ) :
    (c.read src n).1.1.length ≤ n := by
  unfold read
  split
  · simp
  · exact src.length_read n c.conn

/-- Reads of a connection give its bytes, from the first on. -/
def Conn.source (source : Source UInt8 σ) : Source UInt8 (Conn σ) where
  read := read source
  items := bytes source
  items_read := bytes_read source
  length_read := length_read_le source

/-! ## Routing -/

/-- The connection of a client. -/
abbrev RawConn := Chunked UInt8

/-- The routes of a muxer: whether there are any, and for the data of a connection
    the handler and whether its rule catches all. -/
structure Muxer (H D : Type) where
  hasRoutes : Bool
  matching : D → Option H × Bool

structure Router (H D : Type) where
  acmeTLSPassthrough : Bool
  muxerTCP : Muxer H D
  muxerTCPTLS : Muxer H D
  muxerHTTPS : Muxer H D
  httpForwarder : Option H
  httpsForwarder : Option H
  acmeTLSALPNHandler : H

/-- What a router is given: what the TLS handshake reads from a record, the data
    of the connection, whether the reply to Postgres is written, and which
    handlers terminate TLS. -/
structure Env (H D : Type) where
  sniff : List UInt8 → String × List String
  newConnData : (serverName : String) → (protos : List String) → Option D
  reply : Bool
  isTLSHandler : H → Bool

/-- What becomes of a connection: it is closed, or a handler gets it as it is,
    with peeked bytes, or after the negotiation of Postgres. -/
inductive Served (H : Type) where
  | closed
  | direct (handler : H) (conn : RawConn)
  | handled (handler : H) (conn : Conn RawConn)
  | postgres (handler : H) (passthrough : Bool) (conn : Conn (Conn RawConn))

namespace Router

variable {H D : Type}

/-- The handler of a connection whose hello was read. -/
def route (r : Router H D) (hello : ClientHello) (connData : D) : Option H :=
  if !hello.isTLS then
    (r.muxerTCP.matching connData).1 <|> r.httpForwarder
  else if !r.acmeTLSPassthrough && hello.protos.contains "acme-tls/1" then
    some r.acmeTLSALPNHandler
  else
    let (handlerHTTPS, catchAllHTTPS) := r.muxerHTTPS.matching connData
    let (handlerTCPTLS, catchAllTCPTLS) := r.muxerTCPTLS.matching connData
    if handlerHTTPS.isSome && !catchAllHTTPS then handlerHTTPS
    else if handlerTCPTLS.isSome && !catchAllTCPTLS then handlerTCPTLS
    else handlerHTTPS <|> handlerTCPTLS <|> r.httpsForwarder

def servePostgres (env : Env H D) (r : Router H D) (conn : Conn RawConn) : Served H :=
  if !env.reply then .closed
  else
    match (Reader.new defaultBufSize conn).read (source Chunked.source)
        postgresStartTLSMsg.length with
    | ((_, some _), _) => .closed
    | ((_, none), br) =>
      match clientHelloInfo env.sniff (source Chunked.source) br with
      | (.error _, _) => .closed
      | (.ok hello, br) =>
        if !hello.isTLS then .closed
        else
          match env.newConnData hello.serverName hello.protos with
          | none => .closed
          | some connData =>
            match (r.muxerTCPTLS.matching connData).1 with
            | none => .closed
            | some handler => .postgres handler (!env.isTLSHandler handler) ⟨hello.peeked, br.src⟩

/-- A connection whose first bytes have to be looked at. -/
def serveSniffed (env : Env H D) (r : Router H D) (conn : RawConn) : Served H :=
  match isPostgres Chunked.source (Reader.new defaultBufSize conn) with
  | (.error _, _) => .closed
  | (.ok true, br) => r.servePostgres env ⟨getPeeked Chunked.source br, br.src⟩
  | (.ok false, br) =>
    match clientHelloInfo env.sniff Chunked.source br with
    | (.error _, _) => .closed
    | (.ok hello, br) =>
      match env.newConnData hello.serverName hello.protos with
      | none => .closed
      | some connData =>
        match r.route hello connData with
        | none => .closed
        | some handler => .handled handler ⟨hello.peeked, br.src⟩

def serveTCP (env : Env H D) (r : Router H D) (conn : RawConn) : Served H :=
  if r.muxerTCP.hasRoutes && !r.muxerTCPTLS.hasRoutes && !r.muxerHTTPS.hasRoutes then
    match env.newConnData "" [] with
    | none => .closed
    | some connData =>
      match (r.muxerTCP.matching connData).1 with
      | some handler => .direct handler conn
      | none => r.serveSniffed env conn
  else r.serveSniffed env conn

end Router

/-! ## What is peeked -/

section
variable {source : Source UInt8 σ} {b b' : Reader UInt8 σ} {n : Nat} {data : List UInt8}

theorem getPeeked_eq (h : b.buf.length ≤ b.size) : getPeeked source b = b.buf := by
  unfold getPeeked Reader.peek
  rw [Reader.peekLoop_of_not_wants fun hw => lt_irrefl _ hw.1]
  simp [not_lt.mpr h]

/-- A peek that succeeds. -/
theorem peek_ok (h : b.peek source n = ((data, none), b')) :
    b' = b.peekLoop source n n ∧ n ≤ b'.buf.length ∧ n ≤ b'.size ∧
      data = (b.items source).take n ∧ b'.items source = b.items source := by
  have hitems := Reader.items_peekLoop source n n b
  unfold Reader.peek at h
  simp only at h
  split at h
  · cases h
  · next hsize =>
    split at h
    · cases h
    · next hlen =>
      obtain ⟨hdata, rfl⟩ := Prod.mk.inj h
      obtain ⟨rfl, _⟩ := Prod.mk.inj hdata
      refine ⟨rfl, not_lt.mp hlen, not_lt.mp hsize, ?_, hitems⟩
      rw [← hitems, Reader.items, take_append_of_le_length (not_lt.mp hlen)]

end

open Chunked

section
variable {chunks : List (Chunk UInt8)} {size k n : Nat} {b b' : Reader UInt8 RawConn}
  {data : List UInt8}

section
variable (h : Filled chunks size k b)
include h

theorem getPeeked_of_filled : getPeeked source b = b.buf := by
  apply getPeeked_eq
  rw [h.size_eq]
  exact h.le_size

/-- A peek of a filled buffer succeeds when the bytes are there. -/
theorem peek_of_enough (hk : n ≤ k) (hn : n ≤ size) (henough : n ≤ (b.items source).length) :
    ∃ b', b.peek source n = (((b.items source).take n, none), b') ∧
      Filled chunks size k b' ∧ n ≤ b'.buf.length ∧
      b'.items source = b.items source := by
  obtain ⟨hfilled, hlen⟩ := h.peekLoop hk hn henough (Nat.le_add_left n _)
  have hitems := Reader.items_peekLoop source n n b
  exact ⟨_, Reader.peek_of_peekLoop (by rwa [h.size_eq]) hlen, hfilled, hlen, hitems⟩

/-- A peek that succeeds keeps the buffer filled. -/
theorem peek_filled (hk : n ≤ k) (hn : n ≤ size) (hpeek : b.peek source n = ((data, none), b')) :
    Filled chunks size k b' ∧ n ≤ b'.buf.length ∧ data = (b.items source).take n ∧
      b'.items source = b.items source := by
  obtain ⟨_, hlen, _, _, hitems⟩ := peek_ok hpeek
  have henough : n ≤ (b.items source).length := by
    rw [← hitems, Reader.items, length_append]
    omega
  obtain ⟨b₁, hpeek₁, hfilled, hlength₁, hitems₁⟩ := peek_of_enough h hk hn henough
  rw [hpeek₁] at hpeek
  cases hpeek
  exact ⟨hfilled, hlength₁, rfl, hitems₁⟩

/-- Looking for Postgres consumes nothing. -/
theorem isPostgresLoop_filled {is : List Nat} {found : Bool} (his : ∀ i ∈ is, i ≤ k ∧ i ≤ size)
    (hrun : isPostgresLoop source is b = (.ok found, b')) :
    Filled chunks size k b' ∧ b'.items source = b.items source := by
  induction is generalizing b with
  | nil =>
    cases hrun
    exact ⟨h, rfl⟩
  | cons i is ih =>
    obtain ⟨⟨hik, hisize⟩, his⟩ := forall_mem_cons.mp his
    unfold isPostgresLoop at hrun
    split at hrun
    · cases hrun
    · next peeked b₁ hpeek =>
      obtain ⟨hfilled, _, _, hitems⟩ := peek_filled h hik hisize hpeek
      split at hrun
      · obtain ⟨hfilled', hitems'⟩ := ih hfilled his hrun
        exact ⟨hfilled', hitems'.trans hitems⟩
      · cases hrun
        exact ⟨hfilled, hitems⟩

end

/-- Only the first byte is needed to see that a TLS record is not Postgres. -/
theorem isPostgres_tls {rest : List UInt8} (h : Filled chunks size 1 b) (hsize : 1 ≤ size)
    (hitems : b.items source = 0x16 :: rest) :
    ∃ b', isPostgres source b = (.ok false, b') ∧ Filled chunks size 1 b' ∧
      b'.items source = b.items source := by
  obtain ⟨b', hpeek, hfilled, _, hitems'⟩ := peek_of_enough h (le_refl 1) hsize (by simp [hitems])
  refine ⟨b', ?_, hfilled, hitems'⟩
  unfold isPostgres isPostgresLoop
  rw [hpeek, hitems]
  simp [postgresStartTLSMsg]

end

/-! ## What the handler reads -/

/-- Where the first record of a client ends, if it is a TLS handshake. -/
def recordEnd (bytes : List UInt8) : Nat :=
  if bytes.head? = some 0x16 then recordHeaderLen + recLen bytes else 0

open Chunk

/-- The first record of a client with these chunks fits the buffer, or a chunk
    ends with it, or the last bytes of it are read past the buffer: no chunk ends
    less than a buffer before, and neither does the first fill. -/
def Kept (chunks : List (Chunk UInt8)) : Prop :=
  let n := recordEnd (chunks.flatMap data)
  n ≤ defaultBufSize ∨ n ∈ endsFrom 0 chunks ∨
    (∀ p ∈ endsFrom 0 chunks, p < n → p + defaultBufSize ≤ n) ∧
      (defaultBufSize + defaultBufSize ≤ n ∨
        ∃ p ∈ endsFrom 0 chunks, recordHeaderLen ≤ p ∧ p ≤ defaultBufSize)

instance (chunks : List (Chunk UInt8)) : Decidable (Kept chunks) :=
  inferInstanceAs (Decidable (_ ∨ _))

theorem recLen_take (bytes : List UInt8) : recLen (bytes.take recordHeaderLen) = recLen bytes := by
  simp [recLen, recordHeaderLen, getD_eq_getElem?_getD]

theorem take_one_eq_iff {bytes : List UInt8} {byte : UInt8} :
    bytes.take 1 = [byte] ↔ bytes.head? = some byte := by
  cases bytes <;> simp

section
variable {chunks : List (Chunk UInt8)} {size : Nat} {b b' : Reader UInt8 RawConn}
  {sniff : List UInt8 → String × List String} {hello : ClientHello}

/-- A record that fits the buffer is replayed from it. -/
theorem readHello_bytes {n k : Nat} (h : Filled chunks size k b) (hk : n ≤ k) (hn : n ≤ size)
    (hrun : readHello sniff source n b = (.ok hello, b')) :
    hello.peeked ++ b'.src.items = b.items source := by
  unfold readHello at hrun
  split at hrun
  · cases hrun
  · next helloBytes b₁ hpeek =>
    obtain ⟨hfilled, _, _, hitems⟩ := peek_filled h hk hn hpeek
    cases hrun
    rw [← hitems]
    exact congrArg (· ++ b'.src.items) (getPeeked_of_filled hfilled)

/-- **A record that does not fit the buffer**: what the second reader leaves in
    the buffer of the first is lost. -/
theorem readHello_stacked_iff {n k : Nat} (h : Filled chunks size k b) (hk : k ≤ b.buf.length)
    (hk₀ : k ≠ 0) (hn : size < n) (hn₁₆ : 16 ≤ n) {outer : Reader UInt8 (Reader UInt8 RawConn)}
    (hrun : readHello sniff source.buffered n (Reader.new n b) = (.ok hello, outer)) :
    hello.peeked ++ outer.src.src.items = b.items source ↔
      n ∈ endsFrom 0 chunks ∨
      (∀ p ∈ endsFrom 0 chunks, p < n → p + size ≤ n) ∧
        (size + size ≤ n ∨ ∃ p ∈ endsFrom 0 chunks, k ≤ p ∧ p ≤ size) := by
  unfold readHello at hrun
  split at hrun
  · cases hrun
  · next helloBytes outer₁ hpeek =>
    obtain ⟨houter, hlen, hsize, _, hitems⟩ := peek_ok hpeek
    cases hrun
    replace hitems : outer.buf ++ (outer.src.buf ++ outer.src.src.items) =
        b.items source := hitems
    have henough : n ≤ (b.items source).length := by
      rw [← hitems, length_append]
      omega
    -- what is lost is the buffer between the two
    obtain ⟨hfull, hclean⟩ := stacked_clean_iff h hk hk₀ hn hn₁₆ henough
    rw [← houter] at hfull hclean
    rw [← hclean, ← hitems]
    simp only [getPeeked_eq (hfull.trans_le hsize)]
    rw [append_cancel_left_eq, self_eq_append_left]

/-- **After a client hello**: the bytes of the client are what was peeked and what
    is left in the connection, exactly when they are kept. -/
theorem clientHelloInfo_bytes_iff {k : Nat} (h : Filled chunks defaultBufSize k b) (hk : 1 ≤ k)
    (htls : (chunks.flatMap data).head? = some 0x16 → Filled chunks defaultBufSize 1 b)
    (hitems : b.items source = chunks.flatMap data)
    (hrun : clientHelloInfo sniff source b = (.ok hello, b')) :
    hello.peeked ++ b'.src.items = chunks.flatMap data ↔ Kept chunks := by
  unfold clientHelloInfo at hrun
  split at hrun
  · cases hrun
  · next hdr b₁ hpeek₁ =>
    obtain ⟨hfilled₁, hlength₁, hhdr₁, hitems₁⟩ := peek_filled h hk (by decide) hpeek₁
    have hbytes₁ := hitems₁.trans hitems
    split at hrun
    · next hno =>
      -- no TLS record: there is one reader only
      cases hrun
      have hhead : (chunks.flatMap data).head? ≠ some 0x16 := by
        rwa [Ne, ← take_one_eq_iff, ← hitems, ← hhdr₁]
      refine iff_of_true ?_ (.inl ?_)
      · rw [← hbytes₁]
        exact congrArg (· ++ b'.src.items) (getPeeked_of_filled hfilled₁)
      · simp [recordEnd, hhead]
    · next hyes =>
      have hhead : (chunks.flatMap data).head? = some 0x16 := by
        rw [← take_one_eq_iff, ← hitems, ← hhdr₁]
        exact not_not.mp hyes
      obtain ⟨hfilled₁, _⟩ := peek_filled (htls hhead) (le_refl 1) (by decide) hpeek₁
      split at hrun
      · cases hrun
      · next hdr₂ b₂ hpeek₂ =>
        obtain ⟨hfilled₂, hlength₂, hhdr₂, hitems₂⟩ :=
          peek_filled (hfilled₁.mono (by decide)) (le_refl recordHeaderLen) (by decide) hpeek₂
        have hbytes₂ := hitems₂.trans hbytes₁
        have hrec : recordHeaderLen + recLen hdr₂ = recordEnd (chunks.flatMap data) := by
          rw [hhdr₂, hbytes₁, recLen_take, recordEnd, if_pos hhead]
        rw [hrec] at hrun
        split at hrun
        · cases hrun
        · split at hrun
          · next hlarge =>
            -- two readers: the handler gets the buffer of the second one
            generalize hread : readHello sniff source.buffered _ _ = out at hrun
            obtain ⟨_, outer⟩ := out
            cases hrun
            have hstacked := readHello_stacked_iff hfilled₂ hlength₂ (by decide) hlarge
              (le_trans (by decide) hlarge.le) hread
            rw [hbytes₂] at hstacked
            rw [hstacked, Kept, or_iff_right (not_le.mpr hlarge)]
          · next hsmall =>
            -- one reader, whose buffer is replayed
            have hsmall' := not_lt.mp hsmall
            refine iff_of_true ?_ (.inl hsmall')
            rw [← hbytes₂]
            exact readHello_bytes (hfilled₂.mono (le_max_left _ _)) (le_max_right _ _) hsmall' hrun

end

/-! ## Complete records -/

section
variable {chunks : List (Chunk UInt8)} {b : Reader UInt8 RawConn}
  (sniff : List UInt8 → String × List String)

theorem readHello_of_peek {σ : Type} {src : Source UInt8 σ} {n : Nat} {b b' : Reader UInt8 σ}
    {data : List UInt8} (h : b.peek src n = ((data, none), b')) :
    ∃ hello, readHello sniff src n b = (.ok hello, b') ∧ hello.isTLS := by
  unfold readHello
  rw [h]
  exact ⟨_, rfl, rfl⟩

/-- A stacked peek succeeds when the bytes are there. -/
theorem peek_stacked_of_enough {size k n : Nat} (h : Filled chunks size k b)
    (hk : k ≤ b.buf.length) (hk₀ : k ≠ 0) (hn : size < n) (hn₁₆ : 16 ≤ n)
    (henough : n ≤ (b.items source).length) :
    ∃ data outer, (Reader.new n b).peek source.buffered n = ((data, none), outer) := by
  obtain ⟨hfull, _⟩ := stacked_clean_iff h hk hk₀ hn hn₁₆ henough
  exact ⟨_, _, Reader.peek_of_peekLoop (le_max_left n 16) hfull.ge⟩

/-- **A complete record is read**, whatever its length. -/
theorem clientHelloInfo_of_record {rest : List UInt8} (h : Filled chunks defaultBufSize 1 b)
    (hitems : b.items source = 0x16 :: rest) (hmax : recLen (0x16 :: rest) ≤ maxTLSRecordLen)
    (henough : recordHeaderLen + recLen (0x16 :: rest) ≤ (0x16 :: rest).length) :
    ∃ hello b', clientHelloInfo sniff source b = (.ok hello, b') ∧ hello.isTLS := by
  obtain ⟨b₁, hpeek₁, hfilled₁, _, hitems₁⟩ :=
    peek_of_enough h (le_refl 1) (by decide) (by simp [hitems])
  obtain ⟨b₂, hpeek₂, hfilled₂, hlength₂, hitems₂⟩ :=
    peek_of_enough (hfilled₁.mono (by decide)) (le_refl recordHeaderLen) (by decide)
      (by rw [hitems₁, hitems]; omega)
  have hrec : recLen ((b₁.items source).take recordHeaderLen) = recLen (0x16 :: rest) := by
    rw [hitems₁, hitems, recLen_take]
  have henough₂ : recordHeaderLen + recLen (0x16 :: rest) ≤ (b₂.items source).length := by
    rwa [hitems₂, hitems₁, hitems]
  unfold clientHelloInfo
  rw [hpeek₁, hitems]
  simp only [take_succ_cons, take_zero, ne_eq, not_true_eq_false, if_false, hpeek₂, hrec,
    not_lt.mpr hmax]
  by_cases hlarge : defaultBufSize < recordHeaderLen + recLen (0x16 :: rest)
  · obtain ⟨data, outer, hpeek⟩ := peek_stacked_of_enough hfilled₂ hlength₂ (by decide) hlarge
      (le_trans (by decide) hlarge.le) henough₂
    obtain ⟨hello, hread, htls⟩ := readHello_of_peek sniff hpeek
    rw [if_pos hlarge, hread]
    exact ⟨hello, outer.src, rfl, htls⟩
  · obtain ⟨b₃, hpeek, _⟩ := peek_of_enough (hfilled₂.mono (le_max_left _ _)) (le_max_right _ _)
      (not_lt.mp hlarge) henough₂
    obtain ⟨hello, hread, htls⟩ := readHello_of_peek sniff hpeek
    rw [if_neg hlarge, hread]
    exact ⟨hello, b₃, rfl, htls⟩

end

section
variable {H D : Type} {env : Env H D} {r : Router H D} {conn : RawConn} {handler : H}
  {c : Conn RawConn}

open Router

theorem servePostgres_ne_handled (conn : Conn RawConn) :
    r.servePostgres env conn ≠ .handled handler c := by
  unfold servePostgres
  intro hserve
  split at hserve
  · cases hserve
  · split at hserve
    · cases hserve
    · split at hserve
      · cases hserve
      · split at hserve
        · cases hserve
        · split at hserve
          · cases hserve
          · split at hserve
            · cases hserve
            · cases hserve

theorem serveSniffed_bytes_iff (hserve : r.serveSniffed env conn = .handled handler c) :
    c.bytes source = conn.items ↔ Kept conn.chunks := by
  have hnew : Filled conn.chunks defaultBufSize 0 (Reader.new defaultBufSize conn) :=
    .new (by decide) conn
  have hitems : (Reader.new defaultBufSize conn).items source = conn.items := rfl
  unfold serveSniffed at hserve
  split at hserve
  · cases hserve
  · exact absurd hserve (servePostgres_ne_handled _)
  · next br hpostgres =>
    split at hserve
    · cases hserve
    · next hello br' hhello =>
      split at hserve
      · cases hserve
      · split at hserve
        · cases hserve
        · cases hserve
          obtain ⟨hfilled, hbytes⟩ := isPostgresLoop_filled (hnew.mono (Nat.zero_le 8))
            (by decide) hpostgres
          refine clientHelloInfo_bytes_iff hfilled (by decide) (fun hhead => ?_)
            (hbytes.trans hitems) hhello
          -- for a TLS record only the first byte was peeked
          obtain ⟨rest, hrest⟩ := head?_eq_some_iff.mp hhead
          obtain ⟨br₁, hpostgres₁, hfilled₁, _⟩ :=
            isPostgres_tls (hnew.mono (Nat.zero_le 1)) (by decide) (hitems.trans hrest)
          rw [hpostgres₁] at hpostgres
          cases hpostgres
          exact hfilled₁

/-- **What the handler reads**: when a handler is reached by way of the client
    hello, it reads the bytes of the client, from the first on, exactly when they
    are kept. -/
theorem serveTCP_bytes_iff (hserve : r.serveTCP env conn = .handled handler c) :
    c.bytes Chunked.source = conn.items ↔ Kept conn.chunks := by
  unfold serveTCP at hserve
  split at hserve
  · split at hserve
    · cases hserve
    · split at hserve
      · cases hserve
      · exact serveSniffed_bytes_iff hserve
  · exact serveSniffed_bytes_iff hserve

/-- **Complete records reach a handler**, if there is one for TLS. -/
theorem serveSniffed_of_record (hhead : conn.items.head? = some 0x16)
    (hmax : recLen conn.items ≤ maxTLSRecordLen)
    (henough : recordHeaderLen + recLen conn.items ≤ conn.items.length)
    (hroute : ∀ hello : ClientHello, hello.isTLS → ∃ connData handler,
      env.newConnData hello.serverName hello.protos = some connData ∧
        r.route hello connData = some handler) :
    ∃ handler c, r.serveSniffed env conn = .handled handler c := by
  obtain ⟨rest, hitems⟩ := head?_eq_some_iff.mp hhead
  rw [hitems] at hmax henough
  have hnew : Filled conn.chunks defaultBufSize 0 (Reader.new defaultBufSize conn) :=
    .new (by decide) conn
  obtain ⟨br, hpostgres, hfilled, hbytes⟩ :=
    isPostgres_tls (hnew.mono (Nat.zero_le 1)) (by decide) hitems
  obtain ⟨hello, br', hhello, htls⟩ :=
    clientHelloInfo_of_record env.sniff hfilled (hbytes.trans hitems) hmax henough
  obtain ⟨connData, handler, hdata, hhandler⟩ := hroute hello htls
  refine ⟨handler, ⟨hello.peeked, br'.src⟩, ?_⟩
  unfold serveSniffed
  rw [hpostgres]
  simp only [hhello, hdata, hhandler]

end

/-- A router that only forwards TLS connections. -/
def tlsOnly : Router Unit Unit where
  acmeTLSPassthrough := false
  muxerTCP := ⟨false, fun _ => (none, false)⟩
  muxerTCPTLS := ⟨false, fun _ => (none, false)⟩
  muxerHTTPS := ⟨false, fun _ => (none, false)⟩
  httpForwarder := none
  httpsForwarder := some ()
  acmeTLSALPNHandler := ()

/-- Every client hello is for the server `a`. -/
def anyHello : Env Unit Unit where
  sniff := fun _ => ("a", [])
  newConnData := fun _ _ => some ()
  reply := true
  isTLSHandler := fun _ => true

theorem tlsOnly_route (hello : ClientHello) (h : hello.isTLS) :
    ∃ connData handler, anyHello.newConnData hello.serverName hello.protos = some connData ∧
      tlsOnly.route hello connData = some handler := by
  refine ⟨(), (), rfl, ?_⟩
  unfold Router.route
  simp only [h]
  split
  · rename_i hfalse
    cases hfalse
  · split <;> rfl

theorem tlsOnly_serveTCP (conn : RawConn) :
    tlsOnly.serveTCP anyHello conn = tlsOnly.serveSniffed anyHello conn := by
  rfl

/-- A record of 5000 bytes, header included. -/
def largeHello : List UInt8 :=
  0x16 :: 3 :: 1 :: 0x13 :: 0x83 :: List.replicate 4995 0

/-- The 1000 bytes that follow it. -/
def earlyData : List UInt8 :=
  List.replicate 1000 1

/-- A client that sends the record by itself, and the data afterwards. -/
def patientClient : RawConn where
  chunks := [⟨largeHello, List.cons_ne_nil _ _⟩, ⟨earlyData, by decide⟩]
  err := .eof

/-- A client that sends the same bytes at once. -/
def eagerClient : RawConn where
  chunks := [⟨largeHello ++ earlyData, List.cons_ne_nil _ _⟩]
  err := .eof

theorem length_largeHello : largeHello.length = 5000 := by
  simp only [largeHello, length_cons, length_replicate]

theorem length_earlyData : earlyData.length = 1000 := length_replicate

theorem recLen_largeHello (more : List UInt8) : recLen (largeHello ++ more) = 4995 := by
  simp only [largeHello, recLen, cons_append, getD_cons_succ, getD_cons_zero]
  rfl

theorem recordEnd_largeHello (more : List UInt8) : recordEnd (largeHello ++ more) = 5000 := by
  have hhead : (largeHello ++ more).head? = some 0x16 := rfl
  unfold recordEnd
  rw [recLen_largeHello, if_pos hhead]
  rfl

theorem patientClient_items : patientClient.items = largeHello ++ earlyData := by
  simp only [patientClient, items, flatMap_cons, flatMap_nil, append_nil]

theorem eagerClient_items : eagerClient.items = largeHello ++ earlyData := by
  simp only [eagerClient, items, flatMap_cons, flatMap_nil, append_nil]

theorem tlsOnly_serves {conn : RawConn} (hitems : conn.items = largeHello ++ earlyData) :
    ∃ handler c, tlsOnly.serveTCP anyHello conn = .handled handler c := by
  refine serveSniffed_of_record ?_ ?_ ?_ tlsOnly_route
  · rw [hitems]
    rfl
  · rw [hitems, recLen_largeHello]
    decide
  · rw [hitems, recLen_largeHello, length_append, length_largeHello, length_earlyData]
    decide

/-- The bytes of the patient client reach the handler. -/
theorem patientClient_bytes :
    ∃ handler c, tlsOnly.serveTCP anyHello patientClient = .handled handler c ∧
      c.bytes Chunked.source = patientClient.items := by
  obtain ⟨handler, c, hserve⟩ := tlsOnly_serves patientClient_items
  refine ⟨handler, c, hserve, (serveTCP_bytes_iff hserve).mpr (.inr (.inl ?_))⟩
  show recordEnd patientClient.items ∈ _
  rw [patientClient_items, recordEnd_largeHello]
  simp [patientClient, endsFrom, length_largeHello]

/-- Those of the eager client do not: the reader below has the last 1000 of them
    in its buffer, and only what is in the buffer of the one above is replayed. -/
theorem eagerClient_truncated :
    ∃ handler c, tlsOnly.serveTCP anyHello eagerClient = .handled handler c ∧
      c.bytes Chunked.source ≠ eagerClient.items := by
  obtain ⟨handler, c, hserve⟩ := tlsOnly_serves eagerClient_items
  refine ⟨handler, c, hserve, ?_⟩
  rw [tlsOnly_serveTCP] at hserve
  rw [Ne, serveSniffed_bytes_iff hserve]
  have hends : endsFrom 0 eagerClient.chunks = [6000] := by
    simp [eagerClient, endsFrom, length_largeHello, length_earlyData]
  have hrecord : recordEnd (eagerClient.chunks.flatMap data) = 5000 := by
    show recordEnd eagerClient.items = 5000
    rw [eagerClient_items, recordEnd_largeHello]
  unfold Kept
  rw [hends, hrecord]
  decide

end Ingress.TcpRouter
