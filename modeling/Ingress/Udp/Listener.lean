import Ingress.Framework.Registry
import Mathlib.Data.Finmap
import Mathlib.Tactic

/-! # UDP Sessions

    The session-oriented listener of `pkg/udp`.  One goroutine reads the packets
    of all remotes and hands each to the session of its remote address, which it
    creates when there is none; each session has a read loop of its own, which
    closes the session when it stays idle; handlers read, write and close; and
    `Shutdown` closes what is left.

    * `State`: the listener, its sessions and where every goroutine stands.
    * `udp`: the interleavings, one label per atomic step.
    * `view`: the listener as a registry of sessions by remote address, which
      the listener refines (`view_step`).
    * `openSessions_routed`: when the listener delivers to every open session.
    * `closed_after_timeout`: when sessions are closed for being idle. -/

open LTS Option Finmap List

namespace Ingress.Udp

/-! ## State -/

/-- A remote address, as `net.Addr` prints it. -/
abbrev Addr := String

/-- The bytes of a packet. -/
abbrev Datagram := List UInt8

/-- The parameters of a listener.  `Listen` refuses the timeouts that are not
    positive, and `time.NewTicker` panics on a period of zero. -/
structure Config where
  timeout : Nat
  period_pos : 0 < timeout / 10

/-- Where the read loop of a session stands.  `ticked` has read the deadline and
    not yet the clock; `none` is a deadline counted from the zero time. -/
inductive LoopPc where
  | unborn
  | select
  | ticked (deadline : Option Nat)
  | sending (data : Datagram)
  | returned
  deriving DecidableEq, Repr

/-- A session. -/
structure Conn where
  rAddr : Addr
  /-- Data of the listener, to be consumed by `Read`. -/
  msgs : List Datagram
  /-- The last activity; `none` is the zero time of a new session. -/
  lastActivity : Option Nat
  /-- `doneCh` is closed. -/
  done : Bool
  /-- A handler got the session from `Accept`. -/
  accepted : Bool
  loop : LoopPc
  /-- When the ticker was created, and how many of its periods are consumed. -/
  born : Nat
  ticks : Nat
  /-- Calls of `Read` that have their data and not yet recorded their activity. -/
  returning : List Datagram
  deriving DecidableEq, Repr

/-- Where the read loop of the listener stands.  In `accept` and `spawn` it is in
    `getConn` and holds the mutex of the listener. -/
inductive ReaderPc where
  | read
  | getConn (raddr : Addr) (buf : Datagram)
  | accept (id : Nat) (buf : Datagram)
  | spawn (id : Nat) (buf : Datagram)
  | deliver (id : Nat) (buf : Datagram)
  | returned
  deriving DecidableEq, Repr

/-- Where the one effective call of `Shutdown` stands. -/
inductive ShutdownPc where
  | uncalled
  | waiting (stop : Nat)
  | closing
  | closed
  deriving DecidableEq, Repr

/-- The listener, its sessions and its goroutines. -/
structure State where
  conns : Finmap (fun _ : Addr => Nat)
  accepting : Bool
  /-- All sessions created so far; a session is known by its index. -/
  sessions : List Conn
  /-- The calls of `Conn.Close` that have closed `doneCh` and wait for the mutex. -/
  closers : List Nat
  reader : ReaderPc
  shutdown : ShutdownPc
  now : Nat

/-- A new listener. -/
def listen (now : Nat) : State where
  conns := ∅
  accepting := true
  sessions := []
  closers := []
  reader := .read
  shutdown := .uncalled
  now

def newConn (rAddr : Addr) : Conn where
  rAddr
  msgs := []
  lastActivity := none
  done := false
  accepted := false
  loop := .unborn
  born := 0
  ticks := 0
  returning := []

/-- The mutex of the listener is held by `getConn`. -/
def State.locked (s : State) : Bool :=
  match s.reader with
  | .accept _ _ | .spawn _ _ => true
  | _ => false

/-- Change one session. -/
def State.update (s : State) (id : Nat) (f : Conn → Conn) : State :=
  { s with sessions := s.sessions.modify id f }

/-! ## The code -/

/-- `getConn` up to the send on `acceptCh`. -/
def getConn (s : State) (raddr : Addr) (buf : Datagram) : State :=
  match s.conns.lookup raddr with
  | some id => { s with reader := .deliver id buf }
  | none =>
    if s.accepting then
      { s with
        conns := s.conns.insert raddr s.sessions.length
        sessions := s.sessions ++ [newConn raddr]
        reader := .accept s.sessions.length buf }
    else { s with reader := .read } -- errClosedListener: next packet

def Conn.close (c : Conn) : Conn :=
  { c with done := true }

open Conn

/-- `Conn.Close`, up to the mutex. -/
def closeConn (s : State) (id : Nat) : State :=
  { s.update id close with closers := id :: s.closers }

/-- `Conn.Close`, under the mutex. -/
def deleteConn (s : State) (id : Nat) (c : Conn) : State :=
  { s with
    conns := s.conns.erase c.rAddr
    closers := s.closers.erase id }

/-- A session is idle for longer than its timeout.  The deadline of a session
    without activity lies in the distant past. -/
def expired (deadline : Option Nat) (now : Nat) : Bool :=
  match deadline with
  | none => true
  | some d => d < now

/-- `readLoop` of a session after a tick: close, or go on. -/
def checkDeadline (s : State) (id : Nat) (deadline : Option Nat) : State :=
  if expired deadline s.now then
    closeConn (s.update id fun c => { c with loop := .returned }) id
  else s.update id fun c => { c with loop := .select }

/-- `Shutdown`, up to its loop. -/
def shutdown (s : State) (graceTimeout : Nat) : State :=
  if s.accepting then
    { s with accepting := false, shutdown := .waiting (s.now + graceTimeout) }
  else s

/-- One turn of the loop of `Shutdown`. -/
def pollShutdown (s : State) (stop : Nat) : State :=
  if stop < s.now then { s with shutdown := .closing }
  else if s.conns = ∅ then { s with shutdown := .closing }
  else s

/-- The session is a value of the map. -/
def State.listed (s : State) (id : Nat) : Bool :=
  ∃ raddr ∈ s.conns.keys, s.conns.lookup raddr = some id

/-- `Listener.close`: closes and deletes every listed session. -/
def closeListener (s : State) : State :=
  { s with
    conns := ∅
    sessions := s.sessions.mapIdx fun id c => if s.listed id then c.close else c
    shutdown := .closed }

/-! ## Interleavings -/

/-- The atomic steps. -/
inductive Label where
  /-- `ReadFrom` returns a packet, or fails. -/
  | packet (raddr : Addr) (buf : Datagram)
  | readError
  /-- `getConn` takes the mutex; its send on `acceptCh` is received; it starts
      the read loop of the session and releases the mutex. -/
  | getConn
  | accept
  | spawn
  /-- The read loop of the session receives the packet, or `doneCh` is closed. -/
  | deliver
  | discard
  /-- The ticker of a session fires; its read loop looks at the clock. -/
  | tick (id : Nat)
  | checkDeadline (id : Nat)
  /-- A `Read` into `size` bytes meets the read loop of the session; it gets the
      number of bytes; it records its activity. -/
  | read (id size : Nat)
  | readSize (id : Nat)
  | readDone (id : Nat) (data : Datagram)
  /-- A handler writes, or calls `Conn.Close`. -/
  | write (id : Nat)
  | close (id : Nat)
  /-- A `Conn.Close` takes the mutex. -/
  | delete (id : Nat)
  /-- `Shutdown` is called, looks at the sessions, closes the listener. -/
  | shutdown (graceTimeout : Nat)
  | pollShutdown
  | closeListener
  /-- Time passes. -/
  | elapse (duration : Nat)

/-- The interleavings of the goroutines. -/
def udp (cfg : Config) : System State Label where
  init := fun s => ∃ now, s = listen now
  step := fun s label s' =>
    match label with
    | .packet raddr buf =>
        s.reader = .read ∧ s.shutdown ≠ .closed ∧ s' = { s with reader := .getConn raddr buf }
    | .readError => s.reader = .read ∧ s' = { s with reader := .returned }
    | .getConn => ∃ raddr buf, s.reader = .getConn raddr buf ∧ s' = getConn s raddr buf
    | .accept =>
        ∃ id buf, s.reader = .accept id buf ∧
        s' = { s.update id fun c => { c with accepted := true } with reader := .spawn id buf }
    | .spawn =>
        ∃ id buf, s.reader = .spawn id buf ∧
        s' = { s.update id fun c => { c with loop := .select, born := s.now } with
          reader := .deliver id buf }
    | .deliver =>
        ∃ id buf c, s.reader = .deliver id buf ∧ s.sessions[id]? = some c ∧ c.loop = .select ∧
        s' = { s.update id fun c => { c with msgs := c.msgs ++ [buf] } with reader := .read }
    | .discard =>
        ∃ id buf c, s.reader = .deliver id buf ∧ s.sessions[id]? = some c ∧ c.done = true ∧
        s' = { s with reader := .read }
    | .tick id =>
        ∃ c, s.sessions[id]? = some c ∧ c.loop = .select ∧
        c.ticks < (s.now - c.born) / (cfg.timeout / 10) ∧
        s' = s.update id fun c => { c with
          loop := .ticked (c.lastActivity.map (· + cfg.timeout))
          ticks := (s.now - c.born) / (cfg.timeout / 10) }
    | .checkDeadline id =>
        ∃ c deadline, s.sessions[id]? = some c ∧ c.loop = .ticked deadline ∧
        s' = checkDeadline s id deadline
    | .read id size =>
        ∃ c msg rest, s.sessions[id]? = some c ∧ c.accepted = true ∧ c.loop = .select ∧
        c.msgs = msg :: rest ∧
        s' = s.update id fun c => { c with msgs := rest, loop := .sending (msg.take size) }
    | .readSize id =>
        ∃ c data, s.sessions[id]? = some c ∧ c.loop = .sending data ∧
        s' = s.update id fun c => { c with loop := .select, returning := data :: c.returning }
    | .readDone id data =>
        ∃ c, s.sessions[id]? = some c ∧ data ∈ c.returning ∧
        s' = s.update id fun c => { c with
          lastActivity := some s.now, returning := c.returning.erase data }
    | .write id =>
        ∃ c, s.sessions[id]? = some c ∧ c.accepted = true ∧
        s' = s.update id fun c => { c with lastActivity := some s.now }
    | .close id =>
        ∃ c, s.sessions[id]? = some c ∧ c.accepted = true ∧ s' = closeConn s id
    | .delete id =>
        ∃ c, s.sessions[id]? = some c ∧ id ∈ s.closers ∧ s.locked = false ∧
        s' = deleteConn s id c
    | .shutdown graceTimeout => s.locked = false ∧ s' = shutdown s graceTimeout
    | .pollShutdown =>
        ∃ stop, s.shutdown = .waiting stop ∧ (stop < s.now ∨ s.locked = false) ∧
        s' = pollShutdown s stop
    | .closeListener =>
        s.shutdown = .closing ∧ s.locked = false ∧ s' = closeListener s
    | .elapse duration => s' = { s with now := s.now + duration }

/-! ## The listener as a registry -/

/-- The session has been created and its `doneCh` is not closed. -/
def State.Open (s : State) (id : Nat) : Prop :=
  ∃ c, s.sessions[id]? = some c ∧ c.done = false

/-- What the listener knows of its sessions: a registry by remote address. -/
def view (s : State) : Registry.Table Addr where
  entry := fun raddr => s.conns.lookup raddr
  key := fun id => s.sessions[id]?.map rAddr
  opened := { id | s.Open id }
  shut := s.shutdown = .closed

/-- What a step does to the registry; `none` when it leaves it alone. -/
def action (s : State) : Label → Option (Registry.Action Addr)
  | .getConn =>
    match s.reader with
    | .getConn raddr _ =>
      if s.conns.lookup raddr = none ∧ s.accepting = true then
        some (.register raddr s.sessions.length)
      else none
    | _ => none
  | .checkDeadline id =>
    match s.sessions[id]?.map loop with
    | some (.ticked deadline) => if expired deadline s.now then some (.close id) else none
    | _ => none
  | .close id => some (.close id)
  | .delete id => s.sessions[id]?.map fun c => .delete id c.rAddr
  | .closeListener => some .shut
  | _ => none

open State

theorem getElem?_update (s : State) (id : Nat) (f : Conn → Conn) (i : Nat) :
    (s.update id f).sessions[i]? = s.sessions[i]?.map fun c => if id = i then f c else c := by
  simp [update, getElem?_modify]

variable {f : Conn → Conn}

theorem rAddr_update (s : State) (id : Nat) (haddr : ∀ c, (f c).rAddr = c.rAddr) (i : Nat) :
    (s.update id f).sessions[i]?.map rAddr = s.sessions[i]?.map rAddr := by
  rw [getElem?_update]
  by_cases hi : id = i <;> cases s.sessions[i]? <;> simp [hi, haddr]

/-- Changes of a session that keep its address and its `doneCh` are not seen. -/
theorem view_update (s : State) (id : Nat)
    (haddr : ∀ c, (f c).rAddr = c.rAddr) (hdone : ∀ c, (f c).done = c.done) :
    view (s.update id f) = view s := by
  have hopen : ∀ i, (s.update id f).Open i ↔ s.Open i := by
    intro i
    unfold State.Open
    rw [getElem?_update]
    by_cases hi : id = i <;> cases s.sessions[i]? <;> simp [hi, hdone]
  simp only [view, rAddr_update s id haddr, hopen]
  rfl

theorem view_close (s : State) (id : Nat) :
    view (s.update id close) = { view s with opened := (view s).opened \ {id} } := by
  have hopen : { i | (s.update id close).Open i } = { i | s.Open i } \ {id} := by
    ext i
    simp only [Set.mem_ofPred_eq, Set.mem_sdiff, Set.mem_singleton_iff, State.Open, getElem?_update]
    by_cases hi : id = i
    · subst hi
      cases s.sessions[id]? <;> simp [close]
    · have hi' : i ≠ id := fun h => hi h.symm
      simp [hi, hi']
  simp only [view, rAddr_update s id (f := close) (fun _ => rfl), hopen]
  rfl

theorem view_closeConn (s : State) (id : Nat) :
    view (closeConn s id) = { view s with opened := (view s).opened \ {id} } :=
  view_close s id

/-- A session created by `getConn` is registered under its remote address. -/
theorem view_getConn_create {s : State} {raddr : Addr} (buf : Datagram)
    (hfree : s.conns.lookup raddr = none) (haccepting : s.accepting = true) :
    view (getConn s raddr buf) = { view s with
      entry := Function.update (view s).entry raddr (some s.sessions.length)
      key := Function.update (view s).key s.sessions.length (some raddr)
      opened := insert s.sessions.length (view s).opened } := by
  have hentry : (fun a => (s.conns.insert raddr s.sessions.length).lookup a) =
      Function.update (s.conns.lookup) raddr (some s.sessions.length) := by
    funext a
    by_cases ha : a = raddr
    · subst ha
      simp
    · simp [Function.update_of_ne ha, lookup_insert_of_ne _ ha]
  -- the new session is the last one
  have hget : ∀ i, (s.sessions ++ [newConn raddr])[i]? =
      if i = s.sessions.length then some (newConn raddr) else s.sessions[i]? := by
    intro i
    rw [getElem?_append]
    split
    · rw [if_neg (by omega)]
    · by_cases hi : i = s.sessions.length
      · simp [hi]
      · rw [if_neg hi, getElem?_eq_none (by simp; omega), getElem?_eq_none (by omega)]
  simp only [view, getConn, hfree, haccepting, if_true, State.Open, hentry, hget]
  congr 1
  · funext i
    by_cases hi : i = s.sessions.length
    · simp [hi, newConn]
    · simp [hi]
  · ext i
    by_cases hi : i = s.sessions.length
    · simp [hi, newConn]
    · simp [hi]

theorem view_deleteConn (s : State) (id : Nat) (c : Conn) :
    view (deleteConn s id c) =
      { view s with entry := Function.update (view s).entry c.rAddr none } := by
  have hentry : (fun a => (s.conns.erase c.rAddr).lookup a) =
      Function.update (s.conns.lookup) c.rAddr none := by
    funext a
    by_cases ha : a = c.rAddr
    · subst ha
      simp
    · simp [Function.update_of_ne ha, lookup_erase_ne ha]
  simp only [view, deleteConn, hentry]
  rfl

theorem view_closeListener (s : State) :
    view (closeListener s) = { view s with
      entry := fun _ => none
      opened := { i ∈ (view s).opened | ∀ k, (view s).entry k ≠ some i }
      shut := True } := by
  have hlisted : ∀ id, s.listed id = true ↔ ∃ raddr, s.conns.lookup raddr = some id := by
    intro id
    simp only [listed, decide_eq_true_eq]
    constructor
    · intro ⟨raddr, _, h⟩
      exact ⟨raddr, h⟩
    · intro ⟨raddr, h⟩
      exact ⟨raddr, mem_keys.mpr (lookup_isSome.mp (by simp [h])), h⟩
  simp only [view, closeListener, lookup_empty, getElem?_mapIdx, State.Open]
  congr 1
  · funext i
    cases s.sessions[i]? with
    | none => rfl
    | some c => by_cases h : s.listed i = true <;> simp [h, close]
  · ext i
    have hi := hlisted i
    by_cases h : s.listed i = true
    · have hno : ¬ ∀ k, s.conns.lookup k ≠ some i := by
        intro hno
        obtain ⟨k, hk⟩ := hi.mp h
        exact hno k hk
      cases hc : s.sessions[i]? <;> simp [h, hc, hno, close]
    · have hno : ∀ k, s.conns.lookup k ≠ some i := fun k hk => h (hi.mpr ⟨k, hk⟩)
      cases hc : s.sessions[i]? <;> simp [h, hc, hno]

/-- A listener that accepts sessions has not been shut down. -/
def AcceptsUntilShutdown (s : State) : Prop :=
  s.accepting = true → s.shutdown = .uncalled

variable {cfg : Config} {s s' : State} {label : Label}

/-- The steps that change one session, in ways the registry does not see, or none. -/
def Label.isLocal : Label → Bool
  | .getConn | .checkDeadline _ | .close _ | .delete _ => false
  | .shutdown _ | .pollShutdown | .closeListener => false
  | _ => true

theorem step_local (hlocal : label.isLocal = true) (hstep : (udp cfg).step s label s') :
    ∃ i f reader d, s' = { s.update i f with reader, now := s.now + d } ∧
      ∀ c, (f c).rAddr = c.rAddr ∧ (f c).done = c.done ∧
        ((f c).lastActivity = c.lastActivity ∨ (f c).lastActivity = some s.now) := by
  have hid : s.update 0 id = s := by rw [update, modify_id]
  cases label with
  | packet raddr buf =>
    obtain ⟨_, _, rfl⟩ := hstep
    exact ⟨0, id, _, 0, by rw [hid]; rfl, fun _ => ⟨rfl, rfl, .inl rfl⟩⟩
  | readError =>
    obtain ⟨_, rfl⟩ := hstep
    exact ⟨0, id, _, 0, by rw [hid]; rfl, fun _ => ⟨rfl, rfl, .inl rfl⟩⟩
  | discard =>
    obtain ⟨_, _, _, _, _, _, rfl⟩ := hstep
    exact ⟨0, id, _, 0, by rw [hid]; rfl, fun _ => ⟨rfl, rfl, .inl rfl⟩⟩
  | elapse d =>
    obtain rfl := hstep
    exact ⟨0, id, _, d, by rw [hid], fun _ => ⟨rfl, rfl, .inl rfl⟩⟩
  | accept | spawn =>
    obtain ⟨i, _, _, rfl⟩ := hstep
    exact ⟨i, _, _, 0, rfl, fun _ => ⟨rfl, rfl, .inl rfl⟩⟩
  | deliver =>
    obtain ⟨i, _, _, _, _, _, rfl⟩ := hstep
    exact ⟨i, _, _, 0, rfl, fun _ => ⟨rfl, rfl, .inl rfl⟩⟩
  | tick i | readSize i =>
    obtain ⟨_, _, _, _, rfl⟩ := hstep
    exact ⟨i, _, _, 0, rfl, fun _ => ⟨rfl, rfl, .inl rfl⟩⟩
  | read i size =>
    obtain ⟨_, _, _, _, _, _, _, rfl⟩ := hstep
    exact ⟨i, _, _, 0, rfl, fun _ => ⟨rfl, rfl, .inl rfl⟩⟩
  | readDone i data | write i =>
    obtain ⟨_, _, _, rfl⟩ := hstep
    exact ⟨i, _, _, 0, rfl, fun _ => ⟨rfl, rfl, .inr rfl⟩⟩
  | _ => cases hlocal

theorem getConn_accepting (raddr : Addr) (buf : Datagram) :
    (getConn s raddr buf).accepting = s.accepting ∧
      (getConn s raddr buf).shutdown = s.shutdown := by
  unfold getConn
  split
  · simp
  · split <;> simp

theorem checkDeadline_accepting (id : Nat) (deadline : Option Nat) :
    (checkDeadline s id deadline).accepting = s.accepting ∧
      (checkDeadline s id deadline).shutdown = s.shutdown := by
  unfold checkDeadline
  split <;> simp [closeConn, update]

theorem AcceptsUntilShutdown.step (h : AcceptsUntilShutdown s)
    (hstep : (udp cfg).step s label s') : AcceptsUntilShutdown s' := by
  cases label with
  | getConn =>
    obtain ⟨raddr, buf, _, rfl⟩ := hstep
    obtain ⟨ha, hs⟩ := getConn_accepting (s := s) raddr buf
    intro hacc
    rw [hs]
    exact h (ha ▸ hacc)
  | checkDeadline id =>
    obtain ⟨c, deadline, _, _, rfl⟩ := hstep
    obtain ⟨ha, hs⟩ := checkDeadline_accepting (s := s) id deadline
    intro hacc
    rw [hs]
    exact h (ha ▸ hacc)
  | shutdown grace =>
    obtain ⟨_, rfl⟩ := hstep
    unfold shutdown
    split
    · intro hacc; cases hacc
    · exact h
  | pollShutdown =>
    obtain ⟨stop, hwait, _, rfl⟩ := hstep
    intro hacc
    have hacc' : s.accepting = true := by
      unfold pollShutdown at hacc
      split at hacc
      · exact hacc
      · split at hacc <;> exact hacc
    -- a shutdown under way has stopped accepting
    have := h hacc'
    rw [hwait] at this
    cases this
  | closeListener =>
    obtain ⟨hclosing, _, rfl⟩ := hstep
    intro hacc
    have := h hacc
    rw [hclosing] at this
    cases this
  | close id => obtain ⟨_, _, _, rfl⟩ := hstep; exact h
  | delete id => obtain ⟨_, _, _, _, rfl⟩ := hstep; exact h
  | _ =>
    obtain ⟨_, _, _, _, rfl, _⟩ := step_local rfl hstep
    exact h

open Registry

/-- **The listener refines a registry**: a step does to the registry what
    `action` says. -/
theorem view_step (h : AcceptsUntilShutdown s) (hstep : (udp cfg).step s label s') :
    match action s label with
    | none => view s' = view s
    | some act => (registry Addr).step (view s) act (view s') := by
  cases label with
  | getConn =>
    obtain ⟨raddr, buf, hreader, rfl⟩ := hstep
    by_cases hcreate : s.conns.lookup raddr = none ∧ s.accepting = true
    · simp only [action, hreader, if_pos hcreate]
      refine ⟨?_, hcreate.1, by simp [view], view_getConn_create buf hcreate.1 hcreate.2⟩
      simp [view, h hcreate.2]
    · simp only [action, hreader, if_neg hcreate]
      unfold getConn
      split
      · rfl
      · next hfree =>
        rw [if_neg (fun hacc => hcreate ⟨hfree, hacc⟩)]
        rfl
  | checkDeadline id =>
    obtain ⟨c, deadline, hc, hloop, rfl⟩ := hstep
    simp only [action, hc, map_some, hloop, checkDeadline]
    by_cases hexp : expired deadline s.now = true
    · -- the read loop ends with `Conn.Close`
      simp only [hexp, if_true]
      have hsame : view (s.update id fun c => { c with loop := .returned }) = view s :=
        view_update s id (fun _ => rfl) (fun _ => rfl)
      show view _ = _
      rw [view_closeConn, hsame]
    · simp only [hexp]
      exact view_update s id (fun _ => rfl) (fun _ => rfl)
  | close id =>
    obtain ⟨c, _, _, rfl⟩ := hstep
    exact view_closeConn s id
  | delete id =>
    obtain ⟨c, hc, _, _, rfl⟩ := hstep
    simp only [action, hc, map_some]
    exact ⟨by simp [view, hc], view_deleteConn s id c⟩
  | closeListener =>
    obtain ⟨_, _, rfl⟩ := hstep
    exact view_closeListener s
  | shutdown grace =>
    obtain ⟨_, rfl⟩ := hstep
    show view _ = view s
    unfold shutdown
    split
    · next hacc => simp [view, h hacc, State.Open]
    · rfl
  | pollShutdown =>
    obtain ⟨stop, hwait, _, rfl⟩ := hstep
    show view _ = view s
    unfold pollShutdown
    split
    · simp [view, hwait, State.Open]
    · split
      · simp [view, hwait, State.Open]
      · rfl
  | _ =>
    obtain ⟨i, f, _, _, rfl, hf⟩ := step_local rfl hstep
    exact view_update s i (fun c => (hf c).1) (fun c => (hf c).2.1)

/-! ## Delivery -/

/-- Until the listener is closed, every open session is the one that packets of
    its remote address are delivered to. -/
def OpenRouted (s : State) : Prop :=
  s.shutdown ≠ .closed → ∀ id c, s.sessions[id]? = some c → c.done = false →
    s.conns.lookup c.rAddr = some id

/-- The condition on the steps of a run: when a `Conn.Close` deletes by remote
    address, the session it deletes is not open. -/
def DeletesClosed (s : State) : Label → Prop
  | .delete id => ∀ c, s.sessions[id]? = some c →
      ∀ id', s.conns.lookup c.rAddr = some id' → ¬ s.Open id'
  | _ => True

theorem openRouted_iff (s : State) : OpenRouted s ↔ Registry.Routed (view s) := by
  constructor
  · intro h hshut id ⟨c, hc, hopen⟩ raddr hkey
    have haddr : c.rAddr = raddr := by simpa [view, hc] using hkey
    rw [← haddr]
    exact h hshut id c hc hopen
  · intro h hshut id c hc hopen
    exact h hshut id ⟨c, hc, hopen⟩ c.rAddr (by simp [view, hc])

theorem label_of_action {act : Registry.Action Addr} (h : action s label = some act) :
    match act with
    | .register _ _ => label = .getConn
    | .close id => label = .close id ∨ label = .checkDeadline id
    | .delete id _ => label = .delete id
    | .shut => label = .closeListener := by
  cases label with
  | getConn =>
    simp only [action] at h
    split at h
    · split at h <;> cases h
      rfl
    · cases h
  | checkDeadline id =>
    simp only [action] at h
    split at h
    · split at h <;> cases h
      exact .inr rfl
    · cases h
  | close id => cases h; exact .inl rfl
  | delete id =>
    obtain ⟨_, _, rfl⟩ := map_eq_some_iff.mp h
    rfl
  | closeListener => cases h; rfl
  | _ => cases h

/-- The condition is the one of the registry. -/
theorem deletesClosed_iff (s : State) (label : Label) :
    DeletesClosed s label ↔
      ∀ act, action s label = some act → Registry.DeletesClosed (view s) act := by
  by_cases hdelete : ∃ id, label = .delete id
  · obtain ⟨id, rfl⟩ := hdelete
    cases hc : s.sessions[id]? with
    | none => simp [DeletesClosed, action, hc]
    | some c =>
      simp only [DeletesClosed, action, hc, map_some, some.injEq,
        forall_eq', Registry.DeletesClosed]
      rfl
  · have hne : ∀ id, label ≠ .delete id := fun id h => hdelete ⟨id, h⟩
    refine iff_of_true ?_ ?_
    · cases label with
      | delete id => exact absurd rfl (hne id)
      | _ => trivial
    · intro act hact
      cases act with
      | delete i raddr => exact absurd (label_of_action hact) (hne i)
      | _ => trivial

theorem reachable_acceptsUntilShutdown (h : (udp cfg).Reachable s) : AcceptsUntilShutdown s := by
  apply System.invariant AcceptsUntilShutdown ?_ ?_ h
  · intro s ⟨now, hinit⟩ _
    rw [hinit]
    rfl
  · intro s label s' hs hstep
    exact hs.step hstep

theorem view_listen (now : Nat) : view (listen now) = empty := by
  simp [view, listen, empty, State.Open]

/-- Runs of the listener are runs of the registry. -/
theorem view_reachable (h : (udp cfg).Reachable s) : (registry Addr).Reachable (view s) := by
  apply System.Reachable.map view ?_ ?_ h
  · intro s ⟨now, hinit⟩
    rw [hinit]
    exact view_listen now
  · intro s label s' hs hstep
    have hview := view_step (reachable_acceptsUntilShutdown hs) hstep
    cases hact : action s label with
    | none => rw [hact] at hview; exact .inl hview
    | some act => rw [hact] at hview; exact .inr ⟨act, hview⟩

/-- The runs that meet the condition are runs of the registry that meet its own. -/
theorem view_reachable_restrict (h : ((udp cfg).restrict DeletesClosed).Reachable s) :
    ((registry Addr).restrict Registry.DeletesClosed).Reachable (view s) := by
  apply System.Reachable.map view ?_ ?_ h
  · intro s ⟨now, hinit⟩
    rw [hinit]
    exact view_listen now
  · intro s label s' hs ⟨hok, hstep⟩
    have hview := view_step (reachable_acceptsUntilShutdown hs.of_restrict) hstep
    cases hact : action s label with
    | none => rw [hact] at hview; exact .inl hview
    | some act =>
      rw [hact] at hview
      exact .inr ⟨act, (deletesClosed_iff s label).mp hok act hact, hview⟩

/-- **Delivery**: as long as no `Conn.Close` deletes an open session, every open
    session is the one the listener delivers to; and the first `Conn.Close` that
    does delete one leaves an open session without its packets. -/
theorem openSessions_routed (h : ((udp cfg).restrict DeletesClosed).Reachable s) :
    OpenRouted s ∧
      ∀ label s', (udp cfg).step s label s' → (OpenRouted s' ↔ DeletesClosed s label) := by
  have hrouted := routed_of_reachable (view_reachable_restrict h)
  have hkeyed := wellKeyed_of_reachable (view_reachable_restrict h).of_restrict
  refine ⟨(openRouted_iff s).mpr hrouted, ?_⟩
  intro label s' hstep
  have hview := view_step (reachable_acceptsUntilShutdown h.of_restrict) hstep
  rw [openRouted_iff, deletesClosed_iff]
  cases hact : action s label with
  | none =>
    rw [hact] at hview
    rw [show view s' = view s from hview]
    exact iff_of_true hrouted (fun act h => by cases h)
  | some act =>
    rw [hact] at hview
    rw [hrouted.step_iff hkeyed hview]
    simp

/-- A listener with a timeout of a hundred units. -/
def sampleConfig : Config where
  timeout := 100
  period_pos := by decide

/-- Session 0 of remote `a` after its first packet, closed by its handler. -/
def closedSession : Conn :=
  { newConn "a" with msgs := [[1]], done := true, accepted := true, loop := .select }

/-- Session 1 of remote `a`, just started. -/
def freshSession : Conn :=
  { newConn "a" with accepted := true, loop := .select }

/-- Remote `a` came back after its first session was closed. -/
def comeback : State where
  conns := (((∅ : Finmap fun _ : Addr => Nat).insert "a" 0).erase "a").insert "a" 1
  accepting := true
  sessions := [closedSession, freshSession]
  closers := []
  reader := .deliver 1 [2]
  shutdown := .uncalled
  now := 0

theorem comeback_reachable : ((udp sampleConfig).restrict DeletesClosed).Reachable comeback := by
  let sys := (udp sampleConfig).restrict DeletesClosed
  let conns₀ := (∅ : Finmap fun _ => Nat).insert "a" 0
  have hinit : sys.Reachable (listen 0) := .init ⟨0, rfl⟩
  have hrecv : sys.Reachable _ := .step (.packet "a" [1]) hinit ⟨trivial, rfl, by decide, rfl⟩
  have hcreated : sys.Reachable _ := .step .getConn hrecv ⟨trivial, _, _, rfl, rfl⟩
  have hacc : sys.Reachable _ := .step .accept hcreated ⟨trivial, _, _, rfl, rfl⟩
  have hspawned : sys.Reachable _ := .step .spawn hacc ⟨trivial, _, _, rfl, rfl⟩
  have hhanded : sys.Reachable _ := .step .deliver hspawned ⟨trivial, _, _, _, rfl, rfl, rfl, rfl⟩
  have hclosed : sys.Reachable { listen 0 with
      conns := conns₀, sessions := [closedSession], closers := [0] } :=
    .step (.close 0) hhanded ⟨trivial, _, rfl, rfl, rfl⟩
  have hdeleted : sys.Reachable { listen 0 with
      conns := conns₀.erase "a", sessions := [closedSession] } := by
    refine .step (.delete 0) hclosed ⟨?_, closedSession, rfl, by decide, rfl, rfl⟩
    -- the map lists session 0 itself, which is closed
    intro c hc id hid ⟨c', hc', hopen⟩
    obtain rfl : closedSession = c := by simpa using hc
    obtain rfl : 0 = id := by simpa [conns₀, closedSession, newConn] using hid
    obtain rfl : closedSession = c' := by simpa using hc'
    cases hopen
  have hagain : sys.Reachable _ := .step (.packet "a" [2]) hdeleted ⟨trivial, rfl, by decide, rfl⟩
  have hcreated : sys.Reachable { listen 0 with
      conns := (conns₀.erase "a").insert "a" 1, sessions := [closedSession, newConn "a"],
      reader := .accept 1 [2] } := by
    refine .step .getConn hagain ⟨trivial, "a", [2], rfl, ?_⟩
    simp [getConn, listen]
  have hacc : sys.Reachable _ := .step .accept hcreated ⟨trivial, _, _, rfl, rfl⟩
  exact .step .spawn hacc ⟨trivial, _, _, rfl, rfl⟩

/-- Up to the second session of `a` every open session gets its packets. -/
theorem comeback_routed :
    ((udp sampleConfig).restrict DeletesClosed).Reachable comeback ∧ OpenRouted comeback :=
  ⟨comeback_reachable, (openSessions_routed comeback_reachable).1⟩

/-- The read loop of the closed session does not notice that the session is
    closed: its next tick closes it again, which deletes the second session. -/
theorem comeback_lost :
    ∃ s c, (udp sampleConfig).Reachable s ∧ s.shutdown ≠ .closed ∧
      s.sessions[1]? = some c ∧ c.done = false ∧ s.conns.lookup c.rAddr = none ∧
      ¬ OpenRouted s := by
  let sys := udp sampleConfig
  have helapsed : sys.Reachable _ := .step (.elapse 10) comeback_reachable.of_restrict rfl
  have hticked : sys.Reachable _ := .step (.tick 0) helapsed ⟨_, rfl, rfl, by decide, rfl⟩
  have hclosed : sys.Reachable _ := .step (.checkDeadline 0) hticked ⟨_, _, rfl, rfl, rfl⟩
  have hdeleted : sys.Reachable _ := .step (.delete 0) hclosed ⟨_, rfl, by decide, rfl, rfl⟩
  have hlost : (comeback.conns.erase "a").lookup "a" = none := lookup_erase "a" _
  refine ⟨_, freshSession, hdeleted, by decide, rfl, rfl, hlost, ?_⟩
  intro hrouted
  have := hrouted (by decide) 1 freshSession rfl rfl
  cases this

/-! ## Idle sessions -/

/-- The steps that a session counts its timeout from: the activities it records, and every
    `getConn` up to the one that creates it. -/
def Activity (id : Nat) (s : State) : Label → Prop
  | .getConn => s.sessions[id]? = none
  | .readDone i _ => i = id
  | .write i => i = id
  | _ => False

/-- The condition on the steps of a run: a session that is closed on a tick has recorded an
    activity, and none since the tick. -/
def ClosesRecorded (cfg : Config) (s : State) : Label → Prop
  | .checkDeadline id => ∀ c deadline, s.sessions[id]? = some c → c.loop = .ticked deadline →
      expired deadline s.now = true →
        c.lastActivity ≠ none ∧ deadline = c.lastActivity.map (· + cfg.timeout)
  | _ => True

/-- The last activity that the session has recorded is not older than `t`. -/
def RecordedSince (t id : Nat) (s : State) : Prop :=
  t ≤ s.now ∧ ∀ c a, s.sessions[id]? = some c → c.lastActivity = some a → t ≤ a

variable {t id : Nat}

theorem RecordedSince.update (h : RecordedSince t id s) {i : Nat}
    (hf : ∀ c, (f c).lastActivity = c.lastActivity ∨ (f c).lastActivity = some s.now) :
    RecordedSince t id (s.update i f) := by
  refine ⟨h.1, fun c' a hc' ha => ?_⟩
  rw [getElem?_update] at hc'
  obtain ⟨c, hc, rfl⟩ := map_eq_some_iff.mp hc'
  split at ha
  · rcases hf c with hsame | hnow
    · exact h.2 c a hc (hsame ▸ ha)
    · rw [hnow] at ha
      cases ha
      exact h.1
  · exact h.2 c a hc ha

theorem RecordedSince.step (h : RecordedSince t id s) (hstep : (udp cfg).step s label s') :
    RecordedSince t id s' := by
  cases label with
  | getConn =>
    obtain ⟨raddr, buf, _, rfl⟩ := hstep
    unfold getConn
    split
    · exact h
    · split
      · refine ⟨h.1, fun c a hc ha => ?_⟩
        rw [getElem?_append] at hc
        split at hc
        · exact h.2 c a hc ha
        · -- a new session has recorded nothing
          obtain rfl := mem_singleton.mp (mem_of_getElem? hc)
          cases ha
      · exact h
  | checkDeadline i =>
    obtain ⟨_, deadline, _, _, rfl⟩ := hstep
    unfold checkDeadline
    split
    · have hloop := h.update (i := i) (f := fun c => { c with loop := .returned }) fun _ => .inl rfl
      exact hloop.update (f := close) fun _ => .inl rfl
    · exact h.update fun _ => .inl rfl
  | close i =>
    obtain ⟨_, _, _, rfl⟩ := hstep
    exact h.update (f := close) fun _ => .inl rfl
  | delete i => obtain ⟨_, _, _, _, rfl⟩ := hstep; exact h
  | shutdown grace =>
    obtain ⟨_, rfl⟩ := hstep
    unfold shutdown
    split <;> exact h
  | pollShutdown =>
    obtain ⟨_, _, _, rfl⟩ := hstep
    unfold pollShutdown
    split
    · exact h
    · split <;> exact h
  | closeListener =>
    obtain ⟨_, _, rfl⟩ := hstep
    refine ⟨h.1, fun c' a hc' ha => ?_⟩
    simp only [closeListener, getElem?_mapIdx] at hc'
    obtain ⟨c, hc, rfl⟩ := map_eq_some_iff.mp hc'
    refine h.2 c a hc ?_
    split at ha <;> exact ha
  | _ =>
    obtain ⟨i, f, _, d, rfl, hf⟩ := step_local rfl hstep
    exact ⟨Nat.le_add_right_of_le h.1, (h.update fun c => (hf c).2.2).2⟩

theorem recordedSince_of_activity (hactive : Activity id s label)
    (hstep : (udp cfg).step s label s') : RecordedSince s.now id s' := by
  have hrecord : ∀ {f : Conn → Conn}, (∀ c, (f c).lastActivity = some s.now) →
      RecordedSince s.now id (s.update id f) := by
    intro f hf
    refine ⟨le_rfl, fun c' a hc' ha => ?_⟩
    rw [getElem?_update] at hc'
    obtain ⟨c, -, rfl⟩ := map_eq_some_iff.mp hc'
    rw [if_pos rfl, hf] at ha
    cases ha
    exact le_rfl
  match label with
  | .getConn =>
    have hnone : RecordedSince s.now id s := by
      refine ⟨le_rfl, fun c a hc => ?_⟩
      rw [show s.sessions[id]? = none from hactive] at hc
      cases hc
    exact hnone.step hstep
  | .readDone i data | .write i =>
    obtain rfl : i = id := hactive
    obtain ⟨_, _, _, rfl⟩ := hstep
    exact hrecord fun _ => rfl

theorem RecordedSince.run {ok : State → Label → Prop} {ls : List Label} (h : RecordedSince t id s)
    (hrun : ((udp cfg).restrict ok).Run s ls s') : RecordedSince t id s' := by
  induction hrun with
  | nil => exact h
  | cons l hst _ ih => exact ih (h.step hst.2)

/-- **Timeouts**: when `readLoop` closes a session on a tick, in a run that meets the condition,
    the timeout has elapsed since the session was created and since each of its activities. -/
theorem closed_after_timeout {s₁ s₂ s₃ : State} {ls : List Label} (hactive : Activity id s label)
    (hstep : (udp cfg).step s label s₁)
    (hrun : ((udp cfg).restrict (ClosesRecorded cfg)).Run s₁ ls s₂)
    (hcheck : ((udp cfg).restrict (ClosesRecorded cfg)).step s₂ (.checkDeadline id) s₃)
    (hclosed : s₃.sessions[id]?.map loop = some .returned) : s.now + cfg.timeout ≤ s₂.now := by
  have hsince := (recordedSince_of_activity hactive hstep).run hrun
  obtain ⟨hok, c, deadline, hc, hloop, rfl⟩ := hcheck
  have hexpired : expired deadline s₂.now = true := by
    by_contra hno
    rw [checkDeadline, if_neg hno, getElem?_update, hc] at hclosed
    simp at hclosed
  obtain ⟨hsome, rfl⟩ := hok c deadline hc hloop hexpired
  obtain ⟨a, ha⟩ := ne_none_iff_exists'.mp hsome
  have hafter := hsince.2 c a hc ha
  rw [ha] at hexpired
  have hlate : a + cfg.timeout < s₂.now := of_decide_eq_true hexpired
  omega

/-- Session 0 of remote `a`, which has been written to. -/
def written : State :=
  { listen 0 with
    conns := (∅ : Finmap fun _ : Addr => Nat).insert "a" 0
    sessions := [{ freshSession with lastActivity := some 0 }] }

theorem closed_after_write : ∃ s s', (udp sampleConfig).step written (.write 0) written ∧
    (udp sampleConfig).step s (.checkDeadline 0) s' ∧ written.now + 100 ≤ s.now := by
  let ticked : State := { written with
    now := 101
    sessions := [{ freshSession with
      lastActivity := some 0, loop := .ticked (some 100), ticks := 10 }] }
  have hwrite : (udp sampleConfig).step written (.write 0) written := ⟨_, rfl, rfl, rfl⟩
  have hok : ClosesRecorded sampleConfig ticked (.checkDeadline 0) := by
    intro c deadline hc hloop _
    cases hc
    cases hloop
    exact ⟨nofun, rfl⟩
  have hcheck : (udp sampleConfig).step ticked (.checkDeadline 0) (checkDeadline ticked 0 (some 100)) :=
    ⟨_, _, rfl, rfl, rfl⟩
  have hactive : Activity 0 written (.write 0) := rfl
  have hrun : ((udp sampleConfig).restrict (ClosesRecorded sampleConfig)).Run written
      [.elapse 101, .tick 0] ticked :=
    .cons _ ⟨trivial, rfl⟩ (.cons _ ⟨trivial, _, rfl, rfl, by decide, rfl⟩ (.nil _))
  exact ⟨ticked, _, hwrite, hcheck, closed_after_timeout hactive hwrite hrun ⟨hok, hcheck⟩ rfl⟩

/-- A session is closed on its first tick when nothing has been read or written yet, and on a
    later one although something is written after the deadline was read. -/
theorem closed_before_timeout :
    (∃ s s', (udp sampleConfig).Run (listen 0)
      [.packet "a" [1], .getConn, .accept, .spawn, .elapse 10, .tick 0] s ∧
      (udp sampleConfig).step s (.checkDeadline 0) s' ∧ s.now = 10 ∧
      s'.sessions[0]?.map loop = some .returned) ∧
    ∃ s s', (udp sampleConfig).Run (listen 0)
      [.packet "a" [1], .getConn, .accept, .spawn, .write 0, .elapse 101, .tick 0, .write 0] s ∧
      (udp sampleConfig).step s (.checkDeadline 0) s' ∧
      s'.sessions[0]?.map loop = some .returned := by
  have hspawn : ∀ {ls s}, (udp sampleConfig).Run
      { written with sessions := [freshSession], reader := .deliver 0 [1] } ls s →
      (udp sampleConfig).Run (listen 0) (.packet "a" [1] :: .getConn :: .accept :: .spawn :: ls) s :=
    fun h => .cons _ ⟨rfl, by decide, rfl⟩ (.cons _ ⟨"a", [1], rfl, rfl⟩
      (.cons _ ⟨0, [1], rfl, rfl⟩ (.cons _ ⟨0, [1], rfl, rfl⟩ h)))
  constructor
  · exact ⟨_, _, hspawn (.cons _ rfl (.cons _ ⟨_, rfl, rfl, by decide, rfl⟩ (.nil _))),
      ⟨_, none, rfl, rfl, rfl⟩, rfl, rfl⟩
  · exact ⟨_, _, hspawn (.cons _ ⟨_, rfl, rfl, rfl⟩ (.cons _ rfl
      (.cons _ ⟨_, rfl, rfl, by decide, rfl⟩ (.cons _ ⟨_, rfl, rfl, rfl⟩ (.nil _))))),
      ⟨_, some 100, rfl, rfl, rfl⟩, rfl⟩

end Ingress.Udp
