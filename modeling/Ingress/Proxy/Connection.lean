import Ingress.Framework.System
import Ingress.Proxy.Response

/-! # A Connection of the Fast Proxy

    One `conn` of `pkg/proxy/fast/connpool.go`: `readLoop` reads the responses and watches the
    connection while it is idle, and the round trips of `pkg/proxy/fast/proxy.go` that take
    the connection out of the pool, one after the other, write their requests.  They meet at
    two unbuffered channels and at the flag `expectedResponse`.

    The pool gives the connection to one round trip at a time (`ConnPool.exclusive`).  The
    backend may send bytes and close the connection at any time, and every read and write may
    fail.

    * `connection`: both sides, one label per operation on what they share.
    * `Inv`: where each side can be.
    * `never_hangs`: no round trip waits for a `readLoop` that has returned.
    * `responses_attributed`: which bytes a response is made of. -/

open List LTS

namespace Ingress.FastProxy

/-! ## The state -/

/-- The request whose response is read: the bytes that had arrived when the connection was
    marked for it, and those that had been read before its response. -/
structure Handling where
  method : String
  marked : ℕ
  start : ℕ
  deriving DecidableEq, Repr

/-- Where `readLoop` stands. -/
inductive Loop where
  /-- At `Peek`. -/
  | peek
  /-- `Peek` has failed, and the select comes next. -/
  | failed
  /-- At the load of `expectedResponse`. -/
  | check
  /-- At the receive on `RWCh`. -/
  | receive
  /-- In `handleResponse`. -/
  | handle (r : Handling)
  /-- At the send of an error on `ErrCh`. -/
  | reportError
  /-- At the store to `expectedResponse`. -/
  | clear
  /-- At the send of nil on `ErrCh`. -/
  | report
  /-- At the store to `broken`. -/
  | giveUp
  /-- At the deferred `Close`. -/
  | closing
  | returned
  deriving DecidableEq, Repr

/-- Where the round trip stands that has the connection. -/
inductive Trip where
  | acquired (method : String)
  /-- The connection is marked, and the request is being written. -/
  | writing (method : String)
  /-- `writeRequest` has returned, and the send on `RWCh` comes next. -/
  | wrote (method : String)
  /-- At the send on `RWCh`. -/
  | offering (method : String)
  /-- At the receive on `ErrCh`. -/
  | awaiting
  /-- At `ReleaseConn`. -/
  | finished
  deriving DecidableEq, Repr

/-- Where the connection is. -/
inductive Place where
  | idle
  | held (t : Trip)
  | gone
  deriving DecidableEq, Repr

/-- A response that was read, up to the byte `stop`. -/
structure Exchange extends Handling where
  stop : ℕ
  deriving DecidableEq, Repr

/-- The connection, with its `readLoop` and the round trip that has it. -/
structure State where
  loop : Loop
  place : Place
  expectedResponse : Bool
  broken : Bool
  upgraded : Bool
  closed : Bool
  /-- The bytes that have arrived, and how many of them were read. -/
  stream : List UInt8
  pos : ℕ
  /-- The backend has closed the connection. -/
  ended : Bool
  /-- The bytes that had arrived when the connection was marked last. -/
  marked : ℕ
  exchanges : List Exchange
  deriving DecidableEq, Repr

/-- The bytes that have not been read. -/
def State.unread (s : State) : List UInt8 :=
  s.stream.drop s.pos

/-- The operations of the backend, of the pool, of the round trip and of `readLoop`. -/
inductive Label where
  | arrive (bs : List UInt8)
  | finish
  /-- `Close` by a timer of `handleResponse`, which may be late, or by the handler of an
      upgrade. -/
  | timeout
  /-- The pool closes the connection. -/
  | discard
  | acquire (method : String)
  | mark
  | wrote
  | writeError
  | offer
  | release (kept : Bool)
  | peek
  | peekError
  /-- The select after an error receives from `RWCh`. -/
  | takeError
  /-- The select after an error takes the default case. -/
  | giveUp
  | check
  | take
  | handled
  | handleError (n : ℕ)
  | clear
  | report
  | reportError
  | setBroken
  | close

/-! ## The steps -/

/-- What `ReleaseConn` does with the connection: the channel may be full. -/
def State.released (s : State) (kept : Bool) : State :=
  if s.upgraded then { s with place := .gone }
  else if kept then { s with place := .idle }
  else { s with place := .gone, closed := true }

/-- The response that was read. -/
def State.finishHandling (s : State) (r : Handling) (n : ℕ) : State :=
  { s with
    loop := .clear
    pos := s.pos + n
    exchanges := s.exchanges ++ [⟨r, s.pos + n⟩] }

/-- One step.  A write on a closed connection fails. -/
def step (rd : Readers) (s : State) (l : Label) (s' : State) : Prop :=
  match l with
  | .arrive bs => s.ended = false ∧ s' = { s with stream := s.stream ++ bs }
  | .finish => s' = { s with ended := true }
  | .timeout => s' = { s with closed := true }
  | .discard => s.place = .idle ∧ s' = { s with place := .gone, closed := true }
  | .acquire method =>
      s.place = .idle ∧ s.broken = false ∧ s' = { s with place := .held (.acquired method) }
  | .mark =>
      ∃ method, s.place = .held (.acquired method) ∧
        s' = { s with
          place := .held (.writing method)
          expectedResponse := true
          marked := s.stream.length }
  | .wrote =>
      ∃ method, s.place = .held (.writing method) ∧ s.closed = false ∧
        s' = { s with place := .held (.wrote method) }
  | .writeError =>
      ∃ method, s.place = .held (.writing method) ∧
        s' = { s with place := .gone, closed := true }
  | .offer =>
      ∃ method, s.place = .held (.wrote method) ∧
        s' = { s with place := .held (.offering method) }
  | .release kept => s.place = .held .finished ∧ s' = s.released kept
  | .peek => s.loop = .peek ∧ s.unread ≠ [] ∧ s' = { s with loop := .check }
  | .peekError =>
      s.loop = .peek ∧ (s.ended = true ∨ s.closed = true) ∧ s' = { s with loop := .failed }
  | .takeError =>
      s.loop = .failed ∧ ∃ method, s.place = .held (.offering method) ∧
        s' = { s with loop := .reportError, place := .held .awaiting }
  | .giveUp =>
      s.loop = .failed ∧ (∀ method, s.place ≠ .held (.offering method)) ∧
        s' = { s with loop := .giveUp }
  | .check =>
      s.loop = .check ∧
        s' = { s with loop := if s.expectedResponse then .receive else .giveUp }
  | .take =>
      s.loop = .receive ∧ ∃ method, s.place = .held (.offering method) ∧
        s' = { s with loop := .handle ⟨method, s.marked, s.pos⟩, place := .held .awaiting }
  | .handled =>
      ∃ r, s.loop = .handle r ∧
        ((∃ res n, handleResponse rd r.method s.ended s.unread = .done res n ∧
            s' = s.finishHandling r n) ∨
          -- The handler of the upgrade reads on.
          ∃ n k, handleResponse rd r.method s.ended s.unread = .upgraded n ∧
            s' = { s.finishHandling r n with upgraded := true, pos := s.pos + n + k })
  | .handleError n =>
      (∃ r, s.loop = .handle r) ∧ s' = { s with loop := .reportError, pos := s.pos + n }
  | .clear => s.loop = .clear ∧ s' = { s with loop := .report, expectedResponse := false }
  | .report =>
      s.loop = .report ∧ s.place = .held .awaiting ∧
        s' = { s with loop := .peek, place := .held .finished }
  | .reportError =>
      s.loop = .reportError ∧ s.place = .held .awaiting ∧
        s' = { s with loop := .closing, place := .gone }
  | .setBroken => s.loop = .giveUp ∧ s' = { s with loop := .closing, broken := true }
  | .close => s.loop = .closing ∧ s' = { s with loop := .returned, closed := true }

/-- The connection when it is put in the pool. -/
def start : State where
  loop := .peek
  place := .idle
  expectedResponse := false
  broken := false
  upgraded := false
  closed := false
  stream := []
  pos := 0
  ended := false
  marked := 0
  exchanges := []

/-- All interleavings. -/
def connection (rd : Readers) : System State Label where
  init := fun s => s = start
  step := step rd

/-! ## Where each side can be -/

/-- `readLoop` has received from `RWCh` and not yet sent on `ErrCh`. -/
def Loop.serving : Loop → Bool
  | .handle _ | .reportError | .clear | .report => true
  | _ => false

/-- `readLoop` will not receive from `RWCh` any more. -/
def Loop.leaving : Loop → Bool
  | .giveUp | .closing | .returned => true
  | _ => false

/-- The connection is with nobody, or with a round trip that has not marked it or is done. -/
def Place.unmarked : Place → Bool
  | .idle | .held (.acquired _) | .held .finished => true
  | _ => false

/-- The connection is marked, and `readLoop` has not received from `RWCh`. -/
def Place.marked : Place → Bool
  | .held (.writing _) | .held (.wrote _) | .held (.offering _) => true
  | _ => false

/-- A round trip awaits the outcome while `readLoop` serves it.  The flag says whether the
    connection is marked, and `readLoop` waits at `RWCh` only when it is.  The connection is
    closed once `readLoop` has returned. -/
structure Inv (s : State) : Prop where
  serving : s.place = .held .awaiting ↔ s.loop.serving = true
  expected : s.place.marked = true → s.expectedResponse = true
  unmarked : s.place.unmarked = true → s.expectedResponse = false ∧ s.loop ≠ .receive
  cleared : s.loop = .report → s.expectedResponse = false
  closed : s.loop = .returned → s.closed = true

variable {rd : Readers} {s s' : State} {l : Label}

theorem Inv.not_serving (h : Inv s) (hplace : s.place ≠ .held .awaiting) :
    s.loop.serving = false := by
  rw [← Bool.not_eq_true]
  exact fun hserving => hplace (h.serving.mpr hserving)

theorem Inv.place_ne (h : Inv s) (hloop : s.loop.serving = false) : s.place ≠ .held .awaiting := by
  intro hplace
  rw [h.serving.mp hplace] at hloop
  cases hloop

/-- Nobody writes while `readLoop` serves a round trip. -/
theorem Inv.not_marked (h : Inv s) (hserving : s.loop.serving = true) : s.place.marked = false := by
  rw [h.serving.mpr hserving]
  rfl

/-- `readLoop` goes on without serving anybody. -/
theorem Inv.setLoop (h : Inv s) (loop : Loop) (hloop : s.loop.serving = false)
    (hserving : loop.serving = false) (hreceive : loop = .receive → s.expectedResponse = true)
    (hreturned : loop ≠ .returned) (broken : Bool) : Inv { s with loop, broken } where
  serving := by simp [h.place_ne hloop, hserving]
  expected := h.expected
  unmarked := by
    intro hunmarked
    have hfalse := (h.unmarked hunmarked).1
    refine ⟨hfalse, fun heq => ?_⟩
    rw [hreceive heq] at hfalse
    cases hfalse
  cleared := fun heq => by rw [show loop = .report from heq] at hserving; cases hserving
  closed := fun heq => absurd heq hreturned

/-- The connection changes hands while `readLoop` serves nobody. -/
theorem Inv.setPlace (h : Inv s) (place : Place) (hplace : s.place ≠ .held .awaiting)
    (hne : place ≠ .held .awaiting) (closed : Bool) (hclosed : s.closed = true → closed = true)
    (hexp : place.marked = true → s.expectedResponse = true)
    (hunmarked : place.unmarked = true → s.place.unmarked = true) : Inv { s with place, closed } where
  serving := by simp [hne, h.not_serving hplace]
  expected := hexp
  unmarked := fun heq => h.unmarked (hunmarked heq)
  cleared := h.cleared
  closed := fun heq => hclosed (h.closed heq)

open State

theorem Inv.step (h : Inv s) (hst : step rd s l s') : Inv s' := by
  match l with
  | .arrive _ => obtain ⟨-, rfl⟩ := hst; exact { h with }
  | .finish => obtain rfl := hst; exact { h with }
  | .timeout => obtain rfl := hst; exact { h with closed := fun _ => rfl }
  | .discard =>
    obtain ⟨hplace, rfl⟩ := hst
    exact h.setPlace .gone (by simp [hplace]) nofun true (fun _ => rfl) nofun nofun
  | .acquire method =>
    obtain ⟨hplace, -, rfl⟩ := hst
    exact h.setPlace _ (by simp [hplace]) (by simp) s.closed id nofun fun _ => by rw [hplace]; rfl
  | .mark =>
    obtain ⟨method, hplace, rfl⟩ := hst
    have hserving := h.not_serving (by simp [hplace])
    refine ⟨by simp [hserving], fun _ => rfl, nofun, fun heq => ?_, h.closed⟩
    rw [show s.loop = .report from heq] at hserving
    cases hserving
  | .wrote =>
    obtain ⟨method, hplace, -, rfl⟩ := hst
    exact h.setPlace _ (by simp [hplace]) (by simp) s.closed id
      (fun _ => h.expected (by rw [hplace]; rfl)) nofun
  | .offer =>
    obtain ⟨method, hplace, rfl⟩ := hst
    exact h.setPlace _ (by simp [hplace]) (by simp) s.closed id
      (fun _ => h.expected (by rw [hplace]; rfl)) nofun
  | .writeError =>
    obtain ⟨method, hplace, rfl⟩ := hst
    exact h.setPlace .gone (by simp [hplace]) nofun true (fun _ => rfl) nofun nofun
  | .release kept =>
    obtain ⟨hplace, rfl⟩ := hst
    have hne : s.place ≠ .held .awaiting := by simp [hplace]
    unfold released
    split
    · exact h.setPlace .gone hne nofun s.closed id nofun nofun
    split
    · exact h.setPlace .idle hne nofun s.closed id nofun fun _ => by rw [hplace]; rfl
    · exact h.setPlace .gone hne nofun true (fun _ => rfl) nofun nofun
  | .peek | .peekError | .giveUp =>
    obtain ⟨hloop, -, rfl⟩ := hst
    refine h.setLoop _ (by rw [hloop]; rfl) rfl ?_ ?_ s.broken <;> nofun
  | .setBroken =>
    obtain ⟨hloop, rfl⟩ := hst
    exact h.setLoop .closing (by rw [hloop]; rfl) rfl nofun nofun true
  | .check =>
    obtain ⟨hloop, rfl⟩ := hst
    have hserving : s.loop.serving = false := by rw [hloop]; rfl
    cases hexp : s.expectedResponse with
    | true =>
      have hreceive := h.setLoop .receive hserving rfl (fun _ => hexp) nofun s.broken
      simpa [hexp] using hreceive
    | false =>
      have hgiveUp := h.setLoop .giveUp hserving rfl nofun nofun s.broken
      simpa [hexp] using hgiveUp
  | .takeError | .take =>
    obtain ⟨-, method, -, rfl⟩ := hst
    exact ⟨by simp [Loop.serving], nofun, nofun, nofun, nofun⟩
  | .handled =>
    obtain ⟨r, hloop, ⟨res, n, -, rfl⟩ | ⟨n, k, -, rfl⟩⟩ := hst <;>
      exact ⟨h.serving.trans (by rw [hloop]; rfl), h.expected,
        fun hunmarked => ⟨(h.unmarked hunmarked).1, nofun⟩, nofun, nofun⟩
  | .handleError _ =>
    obtain ⟨⟨r, hloop⟩, rfl⟩ := hst
    exact ⟨h.serving.trans (by rw [hloop]; rfl), h.expected,
      fun hunmarked => ⟨(h.unmarked hunmarked).1, nofun⟩, nofun, nofun⟩
  | .clear =>
    obtain ⟨hloop, rfl⟩ := hst
    have hplace : s.place = .held .awaiting := h.serving.mpr (by rw [hloop]; rfl)
    refine ⟨by simp [Loop.serving, hplace], fun hmarked => ?_, fun _ => ⟨rfl, nofun⟩, fun _ => rfl,
      nofun⟩
    rw [show s.place = _ from hplace] at hmarked
    cases hmarked
  | .report =>
    obtain ⟨hloop, -, rfl⟩ := hst
    exact ⟨by simp [Loop.serving], nofun, fun _ => ⟨h.cleared hloop, nofun⟩, nofun, nofun⟩
  | .reportError =>
    obtain ⟨-, -, rfl⟩ := hst
    exact ⟨by simp [Loop.serving], nofun, nofun, nofun, nofun⟩
  | .close =>
    obtain ⟨hloop, rfl⟩ := hst
    have hne : s.place ≠ .held .awaiting := h.place_ne (by rw [hloop]; rfl)
    exact ⟨by simp [Loop.serving, hne], h.expected,
      fun hunmarked => ⟨(h.unmarked hunmarked).1, nofun⟩, nofun, fun _ => rfl⟩

theorem inv_start : Inv start :=
  ⟨by simp [start, Loop.serving], nofun, fun _ => ⟨rfl, nofun⟩, nofun, nofun⟩

/-! ## Round trips that wait for ever -/

/-- A round trip is blocked at one of the channels, and `readLoop` has returned. -/
def State.Hung (s : State) : Prop :=
  s.loop = .returned ∧
    (s.place = .held .awaiting ∨ ∃ method, s.place = .held (.offering method))

/-- The condition: no round trip comes to the send on `RWCh` after `readLoop` has decided to
    return. -/
def Heard (s : State) (l : Label) : Prop :=
  l = .offer → s.loop.leaving = false

/-- `readLoop` does not leave a round trip that offers its writer. -/
def Listening (s : State) : Prop :=
  ∀ method, s.place = .held (.offering method) → s.loop.leaving = false

theorem Listening.step (hinv : Inv s) (h : Listening s) (hheard : Heard s l)
    (hst : step rd s l s') : Listening s' := by
  match l with
  | .arrive _ => obtain ⟨-, rfl⟩ := hst; exact h
  | .finish | .timeout => obtain rfl := hst; exact h
  | .discard => obtain ⟨-, rfl⟩ := hst; exact nofun
  | .acquire _ => obtain ⟨-, -, rfl⟩ := hst; exact fun _ hplace => by simp at hplace
  | .mark => obtain ⟨_, -, rfl⟩ := hst; exact fun _ hplace => by simp at hplace
  | .wrote => obtain ⟨_, -, -, rfl⟩ := hst; exact fun _ hplace => by simp at hplace
  | .offer => obtain ⟨_, -, rfl⟩ := hst; exact fun _ _ => hheard rfl
  | .writeError => obtain ⟨_, -, rfl⟩ := hst; exact nofun
  | .release kept =>
    obtain ⟨-, rfl⟩ := hst
    unfold released
    split
    · exact nofun
    split <;> exact nofun
  | .peek | .peekError | .report => obtain ⟨-, -, rfl⟩ := hst; exact fun _ _ => rfl
  | .takeError | .take => obtain ⟨-, _, -, rfl⟩ := hst; exact fun _ _ => rfl
  | .giveUp =>
    -- The default case is taken when nobody is at the other end of the channel.
    obtain ⟨-, hnone, rfl⟩ := hst
    exact fun method hplace => absurd hplace (hnone method)
  | .check =>
    -- The flag was set before the writer was offered.
    obtain ⟨-, rfl⟩ := hst
    intro method hplace
    have hexpected := hinv.expected (by rw [show s.place = _ from hplace]; rfl)
    simp only [hexpected, if_true]
    rfl
  | .handled => obtain ⟨_, -, ⟨_, _, -, rfl⟩ | ⟨_, _, -, rfl⟩⟩ := hst <;> exact fun _ _ => rfl
  | .handleError _ | .clear => obtain ⟨-, rfl⟩ := hst; exact fun _ _ => rfl
  | .reportError => obtain ⟨-, -, rfl⟩ := hst; exact nofun
  | .setBroken | .close =>
    obtain ⟨hloop, rfl⟩ := hst
    intro method hplace
    have hleaving := h method hplace
    rw [hloop] at hleaving
    cases hleaving

theorem listening (h : ((connection rd).restrict Heard).Reachable s) : Inv s ∧ Listening s := by
  refine System.invariant (fun s => Inv s ∧ Listening s) ?_ ?_ h
  · intro s hs
    obtain rfl : s = start := hs
    exact ⟨inv_start, nofun⟩
  · intro s l s' ⟨hinv, hlistening⟩ ⟨hheard, hst⟩
    exact ⟨hinv.step hst, hlistening.step hinv hheard hst⟩

/-- A round trip that offers its writer to a `readLoop` on its way out waits for ever. -/
theorem hung_of_leaving {method : String} (hplace : s.place = .held (.offering method))
    (hleaving : s.loop.leaving = true) : ∃ ls t, (connection rd).Run s ls t ∧ t.Hung := by
  cases hloop : s.loop with
  | giveUp => exact ⟨[.setBroken, .close], _, .cons _ ⟨hloop, rfl⟩ (.cons _ ⟨rfl, rfl⟩ (.nil _)), rfl,
      .inr ⟨method, hplace⟩⟩
  | closing => exact ⟨[.close], _, .cons _ ⟨hloop, rfl⟩ (.nil _), rfl, .inr ⟨method, hplace⟩⟩
  | returned => exact ⟨[], s, .nil _, hloop, .inr ⟨method, hplace⟩⟩
  | _ => rw [hloop] at hleaving; cases hleaving

/-- **No round trip waits on a dead connection** in a run whose steps meet the condition, and
    one that comes to the send against it does. -/
theorem never_hangs (rd : Readers) :
    (∀ s, ((connection rd).restrict Heard).Reachable s → ¬ s.Hung) ∧
    ∀ s l s', ((connection rd).restrict Heard).Reachable s → (connection rd).step s l s' →
      ¬ Heard s l → ∃ ls t, (connection rd).Run s' ls t ∧ t.Hung := by
  constructor
  · intro s hs ⟨hloop, hwaits⟩
    obtain ⟨hinv, hlistening⟩ := listening hs
    rcases hwaits with hplace | ⟨method, hplace⟩
    · have hserving := hinv.serving.mp hplace
      rw [hloop] at hserving
      cases hserving
    · have hleaving := hlistening method hplace
      rw [hloop] at hleaving
      cases hleaving
  · intro s l s' _ hst hnot
    obtain ⟨rfl, hleaving⟩ := Classical.not_imp.mp hnot
    obtain ⟨method, -, rfl⟩ := hst
    exact hung_of_leaving rfl ((Bool.not_eq_false _).mp hleaving)

/-- A response without a body. -/
def okBytes : List UInt8 :=
  "HTTP/1.1 200 OK\r\nContent-Length: 0\r\n\r\n".toList.map fun c => UInt8.ofNat c.toNat

/-- Readers that know the header of this response. -/
def okReaders : Readers where
  header := .word okBytes (by decide) ⟨200, 0, [("Content-Length", "0")], by decide⟩
  chunked := .word [13, 10] crlf_length_pos []
  trailer := .word [13, 10] crlf_length_pos []

/-- The backend closes an idle connection while a round trip takes it: `readLoop` finds nobody
    at its channel and returns, and the round trip, whose request was written before, waits for
    it. -/
theorem close_before_offer : ∃ s, (connection okReaders).Reachable s ∧ s.Hung := by
  let sys := connection okReaders
  have hmarked : sys.Reachable _ :=
    .step .mark (.step (.acquire "GET") (.init rfl) ⟨rfl, rfl, rfl⟩) ⟨_, rfl, rfl⟩
  have hwrote : sys.Reachable _ := .step .wrote hmarked ⟨_, rfl, rfl, rfl⟩
  have hfailed : sys.Reachable _ :=
    .step .peekError (.step .finish hwrote (show _ = _ from rfl)) ⟨rfl, .inl rfl, rfl⟩
  have hreturned : sys.Reachable _ :=
    .step .close (.step .setBroken (.step .giveUp hfailed ⟨rfl, nofun, rfl⟩) ⟨rfl, rfl⟩) ⟨rfl, rfl⟩
  exact ⟨_, .step .offer hreturned ⟨_, rfl, rfl⟩, rfl, .inr ⟨"GET", rfl⟩⟩

/-! ## The bytes of a response -/

/-- Every response is read from bytes that arrived after the connection was marked for its
    request, and behind the one before it; and what was read is one message. -/
structure Attributed (rd : Readers) (s : State) : Prop where
  handling : ∀ r, s.loop = .handle r → r.marked ≤ r.start ∧ ∀ e ∈ s.exchanges, e.stop ≤ r.start
  marked : ∀ e ∈ s.exchanges, e.marked ≤ e.start
  order : s.exchanges.Pairwise fun e e' => e.stop ≤ e'.start
  messages : ∀ e ∈ s.exchanges,
    Message rd e.method s.ended (s.stream.drop e.start) (e.stop - e.start)

/-- The condition: when the connection is marked there are no bytes that have not been read,
    unless it is closed or `readLoop` has found it broken. -/
def Clean (s : State) (l : Label) : Prop :=
  l = .mark → s.unread = [] ∨ s.closed = true ∨ s.loop ≠ .peek ∧ s.loop ≠ .check

/-- `readLoop` will not read a response any more. -/
def Loop.lost : Loop → Bool
  | .failed | .giveUp | .closing | .returned => true
  | _ => false

/-- What holds along the way: all bytes that had arrived at the mark are read when the request
    is written, unless `readLoop` will not read. -/
structure Attribution (rd : Readers) (s : State) : Prop extends Inv s where
  writing : ∀ method, s.place = .held (.writing method) →
    s.marked ≤ s.pos ∨ s.closed = true ∨ s.loop.lost = true
  wrote : ∀ method, s.place = .held (.wrote method) ∨ s.place = .held (.offering method) →
    s.marked ≤ s.pos ∨ s.loop.lost = true
  handling : ∀ r, s.loop = .handle r → r.start = s.pos ∧ r.marked ≤ s.pos
  stop : ∀ e ∈ s.exchanges, e.stop ≤ s.pos
  marked : ∀ e ∈ s.exchanges, e.marked ≤ e.start
  order : s.exchanges.Pairwise fun e e' => e.stop ≤ e'.start
  messages : ∀ e ∈ s.exchanges,
    Message rd e.method s.ended (s.stream.drop e.start) (e.stop - e.start)

section
variable (h : Attribution rd s)
include h

theorem Attribution.attributed : Attributed rd s where
  handling := by
    intro r hloop
    obtain ⟨hstart, hmarked⟩ := h.handling r hloop
    rw [hstart]
    exact ⟨hmarked, h.stop⟩
  marked := h.marked
  order := h.order
  messages := h.messages

/-- `readLoop` goes on without reading: it does not come back once it will not read. -/
theorem Attribution.setLoop (loop : Loop) (broken : Bool)
    (hinv : Inv { s with loop, broken }) (hlost : s.loop.lost = true → loop.lost = true)
    (hhandle : ∀ r, loop ≠ .handle r) : Attribution rd { s with loop, broken } where
  toInv := hinv
  writing := fun method hplace => (h.writing method hplace).imp_right (Or.imp_right hlost)
  wrote := fun method hplace => (h.wrote method hplace).imp_right hlost
  handling := fun r heq => absurd heq (hhandle r)
  stop := h.stop
  marked := h.marked
  order := h.order
  messages := h.messages

/-- Nobody writes to the connection, and no response was read. -/
theorem Attribution.quiet (hinv : Inv s') (hquiet : s'.place.marked = false)
    (hhandling : ∀ r, s'.loop = .handle r → r.start = s'.pos ∧ r.marked ≤ s'.pos)
    (hpos : s.pos ≤ s'.pos)
    (hsame : (s'.exchanges, s'.stream, s'.ended) = (s.exchanges, s.stream, s.ended)) :
    Attribution rd s' := by
  simp only [Prod.mk.injEq] at hsame
  obtain ⟨hexchanges, hstream, hended⟩ := hsame
  refine ⟨hinv, fun _ heq => ?_, fun _ heq => ?_, hhandling, ?_, ?_, ?_, ?_⟩
  · rw [heq] at hquiet; cases hquiet
  · rcases heq with heq | heq <;> rw [heq] at hquiet <;> cases hquiet
  · exact fun e he => (h.stop e (hexchanges ▸ he)).trans hpos
  · exact hexchanges ▸ h.marked
  · exact hexchanges ▸ h.order
  · rw [hexchanges, hstream, hended]
    exact h.messages

/-- A response was read: one message, behind all others. -/
theorem Attribution.finishHandling {r : Handling} {n : ℕ}
    (hloop : s.loop = .handle r) (hmsg : Message rd r.method s.ended s.unread n)
    (hinv : Inv (s.finishHandling r n)) : Attribution rd (s.finishHandling r n) := by
  obtain ⟨hstart, hmarked⟩ := h.handling r hloop
  have hquiet : s.place.marked = false := h.not_marked (by rw [hloop]; rfl)
  refine ⟨hinv, fun _ heq => ?_, fun _ heq => ?_, nofun, ?_, ?_, ?_, ?_⟩
  · rw [show s.place = _ from heq] at hquiet; cases hquiet
  · rcases heq with heq | heq <;> rw [show s.place = _ from heq] at hquiet <;> cases hquiet
  · intro e he
    rcases mem_append.mp he with hold | hnew
    · exact (h.stop e hold).trans (Nat.le_add_right _ _)
    · rw [mem_singleton.mp hnew]
      exact le_rfl
  · intro e he
    rcases mem_append.mp he with hold | hnew
    · exact h.marked e hold
    · rw [mem_singleton.mp hnew]
      exact hmarked.trans hstart.ge
  · refine pairwise_append.mpr ⟨h.order, pairwise_singleton _ _, fun e he e' hnew => ?_⟩
    rw [mem_singleton.mp hnew]
    exact (h.stop e he).trans hstart.ge
  · intro e he
    rcases mem_append.mp he with hold | hnew
    · exact h.messages e hold
    · rw [mem_singleton.mp hnew]
      show Message rd r.method s.ended (s.stream.drop r.start) (s.pos + n - r.start)
      rw [hstart, Nat.add_sub_cancel_left]
      exact hmsg

theorem Attribution.step (hclean : Clean s l) (hst : step rd s l s') : Attribution rd s' := by
  have hinv : Inv s' := h.toInv.step hst
  match l with
  | .arrive bs =>
    obtain ⟨hended, rfl⟩ := hst
    refine { h with toInv := hinv, messages := fun e he => ?_ }
    have hmsg := h.messages e he
    have hlt := hmsg.pos.trans_le hmsg.le
    rw [length_drop] at hlt
    show Message rd e.method s.ended ((s.stream ++ bs).drop e.start) (e.stop - e.start)
    rw [drop_append_of_le_length (by omega)]
    rw [hended] at hmsg ⊢
    exact hmsg.append bs
  | .finish =>
    obtain rfl := hst
    refine { h with toInv := hinv, messages := fun e he => ?_ }
    have hmsg := h.messages e he
    cases hended : s.ended with
    | true => rwa [hended] at hmsg
    | false =>
      rw [hended] at hmsg
      exact hmsg.close
  | .timeout =>
    obtain rfl := hst
    exact { h with toInv := hinv, writing := fun _ _ => .inr (.inl rfl) }
  | .discard => obtain ⟨-, rfl⟩ := hst; exact h.quiet hinv rfl h.handling le_rfl rfl
  | .acquire method =>
    obtain ⟨-, -, rfl⟩ := hst
    exact h.quiet hinv rfl h.handling le_rfl rfl
  | .mark =>
    obtain ⟨method, hplace, rfl⟩ := hst
    refine { h with toInv := hinv, writing := fun _ _ => ?_, wrote := fun _ heq => by simp at heq }
    show s.stream.length ≤ s.pos ∨ s.closed = true ∨ s.loop.lost = true
    rcases hclean rfl with hnone | hclosed | ⟨hpeek, hcheck⟩
    · exact .inl (drop_eq_nil_iff.mp hnone)
    · exact .inr (.inl hclosed)
    · -- The connection is unmarked, so `readLoop` serves nobody and does not wait for anybody.
      have hserving := h.not_serving (by simp [hplace])
      have hreceive := (h.unmarked (by rw [hplace]; rfl)).2
      refine .inr (.inr ?_)
      cases hloop : s.loop <;> simp_all [Loop.lost, Loop.serving]
  | .wrote =>
    obtain ⟨method, hplace, hclosed, rfl⟩ := hst
    refine { h with toInv := hinv, writing := fun _ heq => by simp at heq, wrote := fun _ _ => ?_ }
    rcases h.writing method hplace with hmarked | htrue | hlost
    · exact .inl hmarked
    · rw [hclosed] at htrue
      cases htrue
    · exact .inr hlost
  | .offer =>
    obtain ⟨method, hplace, rfl⟩ := hst
    exact { h with
      toInv := hinv
      writing := fun _ heq => by simp at heq
      wrote := fun _ _ => h.wrote method (.inl hplace) }
  | .writeError => obtain ⟨_, -, rfl⟩ := hst; exact h.quiet hinv rfl h.handling le_rfl rfl
  | .release kept =>
    obtain ⟨-, rfl⟩ := hst
    unfold released at hinv ⊢
    split at hinv
    · next hup => rw [if_pos hup]; exact h.quiet hinv rfl h.handling le_rfl rfl
    next hup =>
    rw [if_neg hup]
    split at hinv
    · next hkept => rw [if_pos hkept]; exact h.quiet hinv rfl h.handling le_rfl rfl
    · next hkept => rw [if_neg hkept]; exact h.quiet hinv rfl h.handling le_rfl rfl
  | .peek =>
    obtain ⟨hloop, -, rfl⟩ := hst
    exact h.setLoop .check s.broken hinv (by rw [hloop]; nofun) nofun
  | .peekError | .giveUp =>
    obtain ⟨-, -, rfl⟩ := hst
    refine h.setLoop _ s.broken hinv (fun _ => rfl) ?_
    nofun
  | .setBroken =>
    obtain ⟨-, rfl⟩ := hst
    exact h.setLoop .closing true hinv (fun _ => rfl) nofun
  | .check =>
    obtain ⟨hloop, rfl⟩ := hst
    refine h.setLoop _ s.broken hinv (by rw [hloop]; nofun) ?_
    split <;> exact nofun
  | .takeError =>
    obtain ⟨-, method, -, rfl⟩ := hst
    exact h.quiet hinv rfl nofun le_rfl rfl
  | .take =>
    obtain ⟨hloop, method, hplace, rfl⟩ := hst
    refine h.quiet hinv rfl (fun r heq => ?_) le_rfl rfl
    obtain rfl := Loop.handle.inj heq
    refine ⟨rfl, (h.wrote method (.inr hplace)).resolve_right ?_⟩
    rw [hloop]
    nofun
  | .handled =>
    obtain ⟨r, hloop, ⟨res, n, hdone, rfl⟩ | ⟨n, k, hup, rfl⟩⟩ := hst
    · exact h.finishHandling hloop (handleResponse_done hdone) hinv
    · have hfin := h.finishHandling hloop (handleResponse_upgraded hup) { hinv with }
      exact hfin.quiet hinv (h.not_marked (by rw [hloop]; rfl)) nofun (Nat.le_add_right ..) rfl
  | .handleError n =>
    obtain ⟨⟨r, hloop⟩, rfl⟩ := hst
    exact h.quiet hinv (h.not_marked (by rw [hloop]; rfl)) nofun (Nat.le_add_right ..) rfl
  | .clear =>
    obtain ⟨hloop, rfl⟩ := hst
    exact h.quiet hinv (h.not_marked (by rw [hloop]; rfl)) nofun le_rfl rfl
  | .report =>
    obtain ⟨-, -, rfl⟩ := hst
    exact h.quiet hinv rfl nofun le_rfl rfl
  | .reportError =>
    obtain ⟨-, -, rfl⟩ := hst
    exact h.quiet hinv rfl nofun le_rfl rfl
  | .close =>
    obtain ⟨-, rfl⟩ := hst
    exact { h with
      toInv := hinv
      writing := fun _ _ => .inr (.inr rfl)
      wrote := fun _ _ => .inr rfl
      handling := nofun }

end

theorem attribution (h : ((connection rd).restrict Clean).Reachable s) : Attribution rd s := by
  refine System.invariant (Attribution rd) ?_ ?_ h
  · intro s hs
    obtain rfl : s = start := hs
    exact ⟨inv_start, nofun, nofun, nofun, nofun, nofun, .nil, nofun⟩
  · intro s l s' hs ⟨hclean, hst⟩
    exact hs.step hclean hst

/-- A round trip that has marked a connection with bytes to be read: `readLoop` reads them as
    its response. -/
theorem misattributed {method : String} (hplace : s.place = .held (.writing method))
    (hexp : s.expectedResponse = true) (hclosed : s.closed = false) (hlt : s.pos < s.marked)
    (hunread : s.unread ≠ []) (hloop : s.loop = .peek ∨ s.loop = .check) :
    ∃ ls t, (connection rd).Run s ls t ∧ ¬ Attributed rd t := by
  -- `readLoop` finds the flag set and takes the writer.
  have hcheck : ∀ {s : State}, s.place = .held (.offering method) → s.loop = .check →
      s.expectedResponse = true → s.pos < s.marked →
      ∃ t, (connection rd).Run s [.check, .take] t ∧ ¬ Attributed rd t := by
    intro s hplace hloop hexp hlt
    have hreceive : (connection rd).step s .check { s with loop := .receive } :=
      ⟨hloop, by rw [hexp]; rfl⟩
    have htake : (connection rd).step { s with loop := .receive } .take { s with
        loop := .handle ⟨method, s.marked, s.pos⟩, place := .held .awaiting } :=
      ⟨rfl, method, hplace, rfl⟩
    refine ⟨_, .cons _ hreceive (.cons _ htake (.nil _)), fun h => ?_⟩
    exact absurd (h.handling _ rfl).1 (Nat.not_le.mpr hlt)
  have hwrote : (connection rd).step s .wrote { s with place := .held (.wrote method) } :=
    ⟨method, hplace, hclosed, rfl⟩
  have hoffer : (connection rd).step { s with place := .held (.wrote method) } .offer
      { s with place := .held (.offering method) } := ⟨method, rfl, rfl⟩
  rcases hloop with hloop | hloop
  · have hpeek : (connection rd).step { s with place := .held (.offering method) } .peek
        { s with place := .held (.offering method), loop := .check } := ⟨hloop, hunread, rfl⟩
    obtain ⟨t, hrun, ht⟩ := @hcheck { s with place := .held (.offering method), loop := .check }
      rfl rfl hexp hlt
    exact ⟨_, t, .cons _ hwrote (.cons _ hoffer (.cons _ hpeek hrun)), ht⟩
  · obtain ⟨t, hrun, ht⟩ := @hcheck { s with place := .held (.offering method) } rfl hloop hexp hlt
    exact ⟨_, t, .cons _ hwrote (.cons _ hoffer hrun), ht⟩

/-- **No response is attributed to the wrong request** in a run whose steps meet the condition.
    A mark against it lets the response of the next request be read from bytes that were there
    before. -/
theorem responses_attributed (rd : Readers) :
    (∀ s, ((connection rd).restrict Clean).Reachable s → Attributed rd s) ∧
    ∀ s l s', ((connection rd).restrict Clean).Reachable s → (connection rd).step s l s' →
      ¬ Clean s l → ∃ ls t, (connection rd).Run s' ls t ∧ ¬ Attributed rd t := by
  refine ⟨fun s hs => (attribution hs).attributed, ?_⟩
  intro s l s' _ hst hnot
  obtain ⟨rfl, hdirty⟩ := Classical.not_imp.mp hnot
  push Not at hdirty
  obtain ⟨hunread, hclosed, hloop⟩ := hdirty
  obtain ⟨method, -, rfl⟩ := hst
  refine misattributed rfl rfl (Bool.eq_false_iff.mpr hclosed) ?_ hunread
    (or_iff_not_imp_left.mpr hloop)
  show s.pos < s.stream.length
  exact Nat.lt_of_not_le fun hle => hunread (drop_eq_nil_iff.mpr hle)

/-- The bytes that follow the response to HEAD are read as the response to the next request,
    which marks the connection before `readLoop` looks at it. -/
theorem head_body_answers_get : ∃ s, (connection okReaders).Reachable s ∧
    s.exchanges = [⟨⟨"HEAD", 0, 0⟩, 38⟩, ⟨⟨"GET", 76, 38⟩, 76⟩] ∧ ¬ Attributed okReaders s := by
  let sys := connection okReaders
  have hoffering : sys.Reachable _ :=
    .step .offer (.step .wrote (.step .mark (.step (.acquire "HEAD") (.init rfl) ⟨rfl, rfl, rfl⟩)
      ⟨_, rfl, rfl⟩) ⟨_, rfl, rfl, rfl⟩) ⟨_, rfl, rfl⟩
  -- The response arrives, with as many bytes again behind it.
  have hreceive : sys.Reachable _ :=
    .step .check (.step .peek (.step (.arrive (okBytes ++ okBytes)) hoffering ⟨rfl, rfl⟩)
      ⟨rfl, nofun, rfl⟩) ⟨rfl, rfl⟩
  have hhandled : sys.Reachable _ :=
    .step .handled (.step .take hreceive ⟨rfl, _, rfl, rfl⟩) ⟨_, rfl, .inl ⟨_, 38, rfl, rfl⟩⟩
  -- The connection goes back to the pool before `readLoop` gets to `Peek`.
  have hidle : sys.Reachable _ :=
    .step (.release true) (.step .report (.step .clear hhandled ⟨rfl, rfl⟩) ⟨rfl, rfl, rfl⟩) ⟨rfl, rfl⟩
  have hmarked : sys.Reachable _ :=
    .step .offer (.step .wrote (.step .mark (.step (.acquire "GET") hidle ⟨rfl, rfl, rfl⟩)
      ⟨_, rfl, rfl⟩) ⟨_, rfl, rfl, rfl⟩) ⟨_, rfl, rfl⟩
  have htaken : sys.Reachable _ :=
    .step .take (.step .check (.step .peek hmarked ⟨rfl, nofun, rfl⟩) ⟨rfl, rfl⟩) ⟨rfl, _, rfl, rfl⟩
  refine ⟨_, .step .handled htaken ⟨_, rfl, .inl ⟨_, 38, rfl, rfl⟩⟩, rfl, fun h => ?_⟩
  have hle : 76 ≤ 38 := h.marked ⟨⟨"GET", 76, 38⟩, 76⟩ (mem_of_mem_tail (.head _))
  exact absurd hle (by decide)

end Ingress.FastProxy
