import Ingress.Framework.Pipe
import Ingress.Udp.Listener

/-! # Datagrams of UDP Sessions

    What the sessions of a listener read.  A datagram passes from the read loop of the listener to
    the one of its session, and from there into the buffer of a `Read`.

    * `seen`: what happens to datagrams in a step.
    * `line`: a session as a pipe between the listener and the calls of `Read`, which the session
      refines (`line_step`).
    * `reads_in_order`: a session reads the datagrams that it was handed, in order; they came
      from its own remote address; and nothing is sent on the closed `acceptCh`. -/

open List LTS Option

namespace Ingress.Udp

/-! ## What is seen -/

/-- What happens to a datagram.  A `Read` meets the read loop of its session (`reading`), gets
    the number of bytes (`got`), and returns. -/
inductive Event where
  | received (raddr : Addr) (buf : Datagram)
  | handed (id : Nat) (buf : Datagram)
  | reading (id size : Nat)
  | got (id : Nat) (data : Datagram)
  | returned (id : Nat) (data : Datagram)
  deriving DecidableEq, Repr

/-- The data on its way from the read loop of a session to a `Read`. -/
def LoopPc.data : LoopPc → Option Datagram
  | .sending data => some data
  | _ => none

open Event

/-- What is seen of a step. -/
def seen (s : State) : Label → List Event
  | .packet raddr buf => [.received raddr buf]
  | .deliver =>
    match s.reader with
    | .deliver id buf => [.handed id buf]
    | _ => []
  | .read id size => [.reading id size]
  | .readSize id => ((s.sessions[id]?.bind (·.loop.data)).map (got id)).toList
  | .readDone id data => [.returned id data]
  | _ => []

def Event.receivedFrom (raddr : Addr) : Event → Option Datagram
  | .received raddr' buf => if raddr' = raddr then some buf else none
  | _ => none

def Event.handedTo (id : Nat) : Event → Option Datagram
  | .handed id' buf => if id' = id then some buf else none
  | _ => none

def Event.sizeOf (id : Nat) : Event → Option Nat
  | .reading id' size => if id' = id then some size else none
  | _ => none

def Event.gotBy (id : Nat) : Event → Option Datagram
  | .got id' data => if id' = id then some data else none
  | _ => none

def Event.returnedBy (id : Nat) : Event → Option Datagram
  | .returned id' data => if id' = id then some data else none
  | _ => none

/-- The listener and what has been seen of it. -/
abbrev Seen := State × List Event

/-- The interleavings, with what is seen of them. -/
def observed (cfg : Config) : System Seen Label :=
  (udp cfg).observe seen

/-- The calls of `Read` of a session do not overlap. -/
def Successive (s : Seen) : Label → Prop
  | .read id _ => ∀ c, s.1.sessions[id]? = some c → c.returning = []
  | _ => True

/-! ## Sessions as pipes -/

/-- The datagrams in a session: those to be read, the one that is being read, and those that
    have been read by a `Read` that has not returned. -/
structure Box where
  msgs : List Datagram
  data : Option Datagram
  returning : List Datagram

def Conn.box (c : Conn) : Box :=
  ⟨c.msgs, c.loop.data, c.returning⟩

open Conn

def State.box (s : State) (id : Nat) : Box :=
  s.sessions[id]?.elim ⟨[], none, []⟩ Conn.box

/-- A session as a pipe from the listener to the calls of `Read`. -/
def line (id : Nat) (s : Seen) : Pipe.Line Datagram Nat Datagram where
  pushed := s.2.filterMap (handedTo id)
  asked := s.2.filterMap (sizeOf id)
  answered := s.2.filterMap (gotBy id)
  returned := s.2.filterMap (returnedBy id)
  queue := (s.1.box id).msgs
  pending := (s.1.box id).data
  returning := (s.1.box id).returning

/-- What a `Read` makes of a datagram. -/
def truncate (size : Nat) (msg : Datagram) : Datagram :=
  msg.take size

/-- What a step does to the pipe; `none` when it leaves it alone. -/
def lineAct (id : Nat) (s : State) : Label → Option (Pipe.Act Datagram Nat Datagram)
  | .deliver =>
    match s.reader with
    | .deliver id' buf => if id' = id then some (.push buf) else none
    | _ => none
  | .read id' size => if id' = id then some (.ask size) else none
  | .readSize id' => if id' = id then some .answer else none
  | .readDone id' data => if id' = id then some (.giveBack data) else none
  | _ => none

variable {cfg : Config} {s s' : State} {t : List Event} {label : Label} {id : Nat} {c : Conn}

/-! ## Steps -/

/-- What a step does to a session. -/
inductive Conn.Step (s : State) (id : Nat) (c : Conn) : Label → Conn → Prop where
  | quiet {label : Label} {c' : Conn} (hact : lineAct id s label = none) (hbox : c'.box = c.box)
      (hunborn : c.loop = .unborn → c'.loop = .unborn) : Conn.Step s id c label c'
  | spawn {buf : Datagram} (hreader : s.reader = .spawn id buf) :
      Conn.Step s id c .spawn { c with loop := .select, born := s.now }
  | deliver {buf : Datagram} (hreader : s.reader = .deliver id buf) (hloop : c.loop = .select) :
      Conn.Step s id c .deliver { c with msgs := c.msgs ++ [buf] }
  | read {size : Nat} {msg : Datagram} {rest : List Datagram} (hloop : c.loop = .select)
      (hmsgs : c.msgs = msg :: rest) :
      Conn.Step s id c (.read id size) { c with msgs := rest, loop := .sending (msg.take size) }
  | readSize {data : Datagram} (hloop : c.loop = .sending data) :
      Conn.Step s id c (.readSize id) { c with loop := .select, returning := data :: c.returning }
  | readDone {data : Datagram} (hmem : data ∈ c.returning) :
      Conn.Step s id c (.readDone id data)
        { c with lastActivity := some s.now, returning := c.returning.erase data }

/-- A step that leaves a session as it is. -/
theorem session_same (hact : lineAct id s label = none) (hc : s.sessions[id]? = some c)
    (hsame : s'.sessions[id]? = s.sessions[id]?) :
    ∃ c', s'.sessions[id]? = some c' ∧ c.Step s id label c' :=
  ⟨c, by rw [hsame, hc], .quiet hact rfl fun h => h⟩

/-- A step that changes the session `i`. -/
theorem session_update {i : Nat} {f : Conn → Conn} (hact : i ≠ id → lineAct id s label = none)
    (hc : s.sessions[id]? = some c) (hsessions : s'.sessions = (s.update i f).sessions)
    (hself : i = id → c.Step s id label (f c)) :
    ∃ c', s'.sessions[id]? = some c' ∧ c.Step s id label c' := by
  have hget : s'.sessions[id]? = some (if i = id then f c else c) := by
    rw [hsessions, getElem?_update, hc, map_some]
  refine ⟨_, hget, ?_⟩
  split
  · next hi => exact hself hi
  · next hi => exact .quiet (hact hi) rfl fun h => h

open LoopPc

theorem session_step (hstep : (udp cfg).step s label s') (hc : s.sessions[id]? = some c) :
    ∃ c', s'.sessions[id]? = some c' ∧ c.Step s id label c' := by
  match label with
  | .packet raddr buf => obtain ⟨_, _, rfl⟩ := hstep; exact session_same rfl hc rfl
  | .readError => obtain ⟨_, rfl⟩ := hstep; exact session_same rfl hc rfl
  | .getConn =>
    obtain ⟨raddr, buf, _, rfl⟩ := hstep
    refine session_same rfl hc ?_
    unfold getConn
    split
    · rfl
    · split
      · exact List.getElem?_append_left (List.getElem?_eq_some_iff.mp hc).1
      · rfl
  | .accept =>
    obtain ⟨i, buf, _, rfl⟩ := hstep
    exact session_update (fun _ => rfl) hc rfl fun _ => .quiet rfl rfl fun h => h
  | .spawn =>
    obtain ⟨i, buf, hreader, rfl⟩ := hstep
    refine session_update (fun _ => rfl) hc rfl fun hi => ?_
    subst hi
    exact .spawn hreader
  | .deliver =>
    obtain ⟨i, buf, c₀, hreader, hc₀, hloop, rfl⟩ := hstep
    refine session_update (fun hi => ?_) hc rfl fun hi => ?_
    · simp only [lineAct, hreader, if_neg hi]
    · subst hi
      rw [hc] at hc₀
      cases hc₀
      exact .deliver hreader hloop
  | .discard => obtain ⟨_, _, _, _, _, _, rfl⟩ := hstep; exact session_same rfl hc rfl
  | .tick i =>
    obtain ⟨c₀, hc₀, hloop, _, rfl⟩ := hstep
    refine session_update (fun _ => rfl) hc rfl fun hi => ?_
    subst hi
    rw [hc] at hc₀
    cases hc₀
    refine .quiet rfl ?_ ?_
    · simp only [box, hloop, data]
    · rw [hloop]
      nofun
  | .checkDeadline i =>
    obtain ⟨c₀, deadline, hc₀, hloop, rfl⟩ := hstep
    have hquiet : ∀ loop done, loop.data = none → i = id →
        c.Step s id (.checkDeadline i) { c with loop, done } := by
      intro loop done hdata hi
      subst hi
      rw [hc] at hc₀
      cases hc₀
      refine .quiet rfl ?_ ?_
      · show Box.mk c.msgs loop.data c.returning = ⟨c.msgs, c.loop.data, c.returning⟩
        rw [hdata, hloop]
        rfl
      · rw [hloop]
        nofun
    unfold checkDeadline
    split
    · have hsessions : ((s.update i fun c => { c with loop := .returned }).update i close).sessions =
          (s.update i (close ∘ fun c => { c with loop := .returned })).sessions :=
        modify_modify_eq ..
      exact session_update (fun _ => rfl) hc hsessions (hquiet .returned true rfl)
    · refine session_update (fun _ => rfl) hc rfl fun hi => ?_
      exact hquiet .select c.done rfl hi
  | .read i size =>
    obtain ⟨c₀, msg, rest, hc₀, _, hloop, hmsgs, rfl⟩ := hstep
    refine session_update (fun hi => if_neg hi) hc rfl fun hi => ?_
    subst hi
    rw [hc] at hc₀
    cases hc₀
    exact .read hloop hmsgs
  | .readSize i =>
    obtain ⟨c₀, data, hc₀, hloop, rfl⟩ := hstep
    refine session_update (fun hi => if_neg hi) hc rfl fun hi => ?_
    subst hi
    rw [hc] at hc₀
    cases hc₀
    exact .readSize hloop
  | .readDone i data =>
    obtain ⟨c₀, hc₀, hmem, rfl⟩ := hstep
    refine session_update (fun hi => if_neg hi) hc rfl fun hi => ?_
    subst hi
    rw [hc] at hc₀
    cases hc₀
    exact .readDone hmem
  | .write i | .close i =>
    obtain ⟨_, _, _, rfl⟩ := hstep
    exact session_update (fun _ => rfl) hc rfl fun _ => .quiet rfl rfl fun h => h
  | .delete i => obtain ⟨_, _, _, _, rfl⟩ := hstep; exact session_same rfl hc rfl
  | .shutdown grace =>
    obtain ⟨_, rfl⟩ := hstep
    refine session_same rfl hc ?_
    unfold shutdown
    split <;> rfl
  | .pollShutdown =>
    obtain ⟨stop, _, _, rfl⟩ := hstep
    refine session_same rfl hc ?_
    unfold pollShutdown
    split
    · rfl
    · split <;> rfl
  | .closeListener =>
    obtain ⟨_, _, rfl⟩ := hstep
    refine ⟨if s.listed id then c.close else c, ?_, ?_⟩
    · simp only [closeListener, getElem?_mapIdx, hc, map_some]
    · split <;> exact .quiet rfl rfl fun h => h
  | .elapse d => obtain rfl := hstep; exact session_same rfl hc rfl

/-- The steps of the read loop of the listener. -/
def Label.ofReader : Label → Bool
  | .packet _ _ => true
  | .readError => true
  | .getConn => true
  | .accept => true
  | .spawn => true
  | .deliver => true
  | .discard => true
  | _ => false

theorem reader_of_step (hlabel : label.ofReader = false) (hstep : (udp cfg).step s label s') :
    s'.reader = s.reader := by
  cases label with
  | tick id | readSize id | delete id => obtain ⟨_, _, _, _, rfl⟩ := hstep; rfl
  | checkDeadline id =>
    obtain ⟨_, deadline, _, _, rfl⟩ := hstep
    unfold checkDeadline
    split <;> rfl
  | read id size => obtain ⟨_, _, _, _, _, _, _, rfl⟩ := hstep; rfl
  | readDone id data | write id | close id => obtain ⟨_, _, _, rfl⟩ := hstep; rfl
  | shutdown grace =>
    obtain ⟨_, rfl⟩ := hstep
    unfold shutdown
    split <;> rfl
  | pollShutdown =>
    obtain ⟨stop, _, _, rfl⟩ := hstep
    unfold pollShutdown
    split
    · rfl
    · split <;> rfl
  | closeListener => obtain ⟨_, _, rfl⟩ := hstep; rfl
  | elapse d => obtain rfl := hstep; rfl
  | _ => cases hlabel

/-- Only `getConn` creates sessions, and only `Listener.close` closes `acceptCh`. -/
theorem registry_step (hacc : AcceptsUntilShutdown s) (hstep : (udp cfg).step s label s') :
    (label ≠ .getConn → (view s').key = (view s).key) ∧
      (label ≠ .closeListener → (view s').shut = (view s).shut) := by
  have hview := view_step hacc hstep
  match hact : action s label with
  | none =>
    rw [hact] at hview
    rw [show view s' = view s from hview]
    exact ⟨fun _ => rfl, fun _ => rfl⟩
  | some act =>
    rw [hact] at hview
    match act with
    | .register raddr i =>
      obtain ⟨_, _, _, hview⟩ := hview
      rw [hview]
      exact ⟨fun h => absurd (label_of_action hact) h, fun _ => rfl⟩
    | .close i =>
      rw [show view s' = _ from hview]
      exact ⟨fun _ => rfl, fun _ => rfl⟩
    | .delete i raddr =>
      rw [hview.2]
      exact ⟨fun _ => rfl, fun _ => rfl⟩
    | .shut =>
      rw [show view s' = _ from hview]
      exact ⟨fun _ => rfl, fun h => absurd (label_of_action hact) h⟩

/-- A session that did not exist before a step. -/
theorem new_session (hacc : AcceptsUntilShutdown s) (hstep : (udp cfg).step s label s')
    (hnone : s.sessions[id]? = none) :
    s'.sessions[id]? = none ∨ ∃ raddr buf, s.reader = .getConn raddr buf ∧
      s'.reader = .accept id buf ∧ s'.sessions[id]? = some (newConn raddr) := by
  by_cases hlabel : label = .getConn
  · subst hlabel
    obtain ⟨raddr, buf, hreader, rfl⟩ := hstep
    unfold getConn
    split
    · exact .inl hnone
    · split
      · by_cases hid : id = s.sessions.length
        · subst hid
          refine .inr ⟨raddr, buf, hreader, rfl, ?_⟩
          rw [getElem?_append_right le_rfl, Nat.sub_self]
          rfl
        · rw [getElem?_eq_none_iff] at hnone
          refine .inl (getElem?_eq_none ?_)
          rw [length_append, length_singleton]
          omega
      · exact .inl hnone
  · have hkey := congrFun ((registry_step hacc hstep).1 hlabel) id
    simp only [view, hnone, map_none, map_eq_none_iff] at hkey
    exact .inl hkey

/-! ## New sessions -/

/-- The session that `getConn` is creating. -/
def ReaderPc.creating : ReaderPc → Option Nat
  | .accept id _ => some id
  | .spawn id _ => some id
  | _ => none

/-- The read loop of a session starts when `getConn` has created the session. -/
def Unborn (s : State) : Prop :=
  ∀ id, s.reader.creating = some id → ∃ c : Conn, s.sessions[id]? = some c ∧ c.loop = .unborn

/-- A session that is being created goes on being created, or is new. -/
theorem creating_of_step (hstep : (udp cfg).step s label s') (h : s'.reader.creating = some id) :
    label ≠ .spawn ∧ s.reader.creating = some id ∨
      ∃ raddr, s'.sessions[id]? = some (newConn raddr) := by
  match hlabel : label.ofReader with
  | false =>
    rw [reader_of_step hlabel hstep] at h
    refine .inl ⟨?_, h⟩
    rintro rfl
    cases hlabel
  | true =>
    cases label with
    | packet raddr buf => obtain ⟨_, _, rfl⟩ := hstep; cases h
    | readError => obtain ⟨_, rfl⟩ := hstep; cases h
    | getConn =>
      obtain ⟨raddr, buf, _, rfl⟩ := hstep
      refine .inr ⟨raddr, ?_⟩
      unfold getConn at h ⊢
      split at h
      · cases h
      · split at h
        · next haccepting =>
          cases h
          rw [if_pos haccepting, getElem?_append_right le_rfl, Nat.sub_self]
          rfl
        · cases h
    | accept =>
      obtain ⟨i, buf, hreader, rfl⟩ := hstep
      rw [hreader]
      exact .inl ⟨nofun, h⟩
    | spawn => obtain ⟨_, _, _, rfl⟩ := hstep; cases h
    | deliver | discard => obtain ⟨_, _, _, _, _, _, rfl⟩ := hstep; cases h
    | _ => cases hlabel

theorem Unborn.step (h : Unborn s) (hstep : (udp cfg).step s label s') : Unborn s' := by
  intro id hid
  rcases creating_of_step hstep hid with ⟨hspawn, hbefore⟩ | ⟨raddr, hnew⟩
  · obtain ⟨c, hc, hloop⟩ := h id hbefore
    obtain ⟨c', hc', hchange⟩ := session_step hstep hc
    refine ⟨c', hc', ?_⟩
    cases hchange with
    | quiet _ _ hunborn => exact hunborn hloop
    | spawn _ => exact absurd rfl hspawn
    | deliver _ _ => exact hloop
    | read hselect _ =>
      rw [hloop] at hselect
      cases hselect
    | readSize hsending =>
      rw [hloop] at hsending
      cases hsending
    | readDone _ => exact hloop
  · exact ⟨newConn raddr, hnew, rfl⟩

theorem unborn_of_reachable (h : (udp cfg).Reachable s) : Unborn s := by
  refine System.invariant Unborn ?_ ?_ h
  · intro s ⟨now, hinit⟩
    rw [hinit]
    nofun
  · intro s label s' hs hstep
    exact hs.step hstep

/-! ## Order -/

theorem box_of_session (hc : s.sessions[id]? = some c) : s.box id = c.box := by
  rw [State.box, hc, elim_some]

/-- What a step that leaves the pipe alone shows is not about its session. -/
theorem seen_of_quiet (hact : lineAct id s label = none) : ∀ e ∈ seen s label,
    e.handedTo id = none ∧ e.sizeOf id = none ∧ e.gotBy id = none ∧ e.returnedBy id = none := by
  have hne : ∀ {i : Nat} {act : Pipe.Act Datagram Nat Datagram},
      (if i = id then some act else none) = none → i ≠ id := by
    rintro i act h rfl
    rw [if_pos rfl] at h
    cases h
  intro e he
  match label with
  | .packet raddr buf =>
    rw [mem_singleton.mp he]
    exact ⟨rfl, rfl, rfl, rfl⟩
  | .deliver =>
    simp only [seen] at he
    simp only [lineAct] at hact
    split at he
    · next i buf hreader =>
      rw [hreader] at hact
      rw [mem_singleton.mp he]
      exact ⟨if_neg (hne hact), rfl, rfl, rfl⟩
    · cases he
  | .read i size =>
    rw [mem_singleton.mp he]
    exact ⟨rfl, if_neg (hne hact), rfl, rfl⟩
  | .readSize i =>
    obtain ⟨data, -, rfl⟩ := map_eq_some_iff.mp (mem_toList.mp he)
    exact ⟨rfl, rfl, if_neg (hne hact), rfl⟩
  | .readDone i data =>
    rw [mem_singleton.mp he]
    exact ⟨rfl, rfl, rfl, if_neg (hne hact)⟩

/-- A step that leaves the pipe alone. -/
theorem line_quiet (hacc : AcceptsUntilShutdown s) (hunborn : Unborn s)
    (hstep : (udp cfg).step s label s') (hact : lineAct id s label = none) :
    line id (s', t ++ seen s label) = line id (s, t) := by
  have hevents := seen_of_quiet hact
  have hnone : ∀ {α : Type} (f : Event → Option α), (∀ e ∈ seen s label, f e = none) →
      (t ++ seen s label).filterMap f = t.filterMap f := by
    intro α f hf
    rw [filterMap_append, filterMap_eq_nil_iff.mpr hf, append_nil]
  have hbox : s'.box id = s.box id := by
    match hc : s.sessions[id]? with
    | none =>
      rcases new_session hacc hstep hc with hc' | ⟨raddr, buf, _, _, hc'⟩
      · rw [State.box, State.box, hc, hc']
      · rw [State.box, State.box, hc, hc']
        rfl
    | some c =>
      obtain ⟨c', hc', hchange⟩ := session_step hstep hc
      rw [box_of_session hc, box_of_session hc']
      cases hchange with
      | quiet _ hbox _ => exact hbox
      | spawn hreader =>
        obtain ⟨c₀, hc₀, hloop⟩ := hunborn id (by rw [hreader]; rfl)
        rw [hc] at hc₀
        cases hc₀
        show Box.mk c.msgs none c.returning = ⟨c.msgs, c.loop.data, c.returning⟩
        rw [hloop]
        rfl
      | deliver hreader _ => simp only [lineAct, hreader, if_true, reduceCtorEq] at hact
      | _ => simp only [lineAct, if_true, reduceCtorEq] at hact
  unfold line
  rw [hnone _ fun e he => (hevents e he).1, hnone _ fun e he => (hevents e he).2.1,
    hnone _ fun e he => (hevents e he).2.2.1, hnone _ fun e he => (hevents e he).2.2.2, hbox]

variable {act : Pipe.Act Datagram Nat Datagram}

theorem session_of_act (hstep : (udp cfg).step s label s')
    (hact : lineAct id s label = some act) : ∃ c, s.sessions[id]? = some c := by
  have hid : ∀ {i : Nat} {act' : Pipe.Act Datagram Nat Datagram},
      (if i = id then some act' else none) = some act → i = id := by
    intro i act' h
    by_contra hi
    rw [if_neg hi] at h
    cases h
  cases label with
  | deliver =>
    obtain ⟨i, buf, c, hreader, hc, _, _⟩ := hstep
    simp only [lineAct, hreader] at hact
    exact ⟨c, hid hact ▸ hc⟩
  | read i size =>
    obtain ⟨c, _, _, hc, _⟩ := hstep
    exact ⟨c, hid hact ▸ hc⟩
  | readSize i =>
    obtain ⟨c, _, hc, _⟩ := hstep
    exact ⟨c, hid hact ▸ hc⟩
  | readDone i data =>
    obtain ⟨c, hc, _⟩ := hstep
    exact ⟨c, hid hact ▸ hc⟩
  | _ => cases hact

open Pipe

/-- **A session refines a pipe**: a step does to the pipe what `lineAct` says. -/
theorem line_step (hstep : (udp cfg).step s label s') (hact : lineAct id s label = some act) :
    (pipe truncate).step (line id (s, t)) act (line id (s', t ++ seen s label)) := by
  obtain ⟨c, hc⟩ := session_of_act hstep hact
  obtain ⟨c', hc', hchange⟩ := session_step hstep hc
  have hbox := box_of_session hc
  have hbox' := box_of_session hc'
  cases hchange with
  | quiet hquiet _ _ =>
    rw [hquiet] at hact
    cases hact
  | spawn _ => cases hact
  | deliver hreader _ =>
    simp only [lineAct, hreader, if_true, some.injEq] at hact
    subst hact
    simp [pipe, line, seen, hreader, hbox, hbox', box, Event.handedTo, Event.sizeOf,
      Event.gotBy, Event.returnedBy]
  | @read size msg rest hloop hmsgs =>
    simp only [lineAct, if_true, some.injEq] at hact
    subst hact
    refine ⟨msg, rest, ?_, ?_, ?_⟩
    · simp [line, hbox, box, hmsgs]
    · simp [line, hbox, box, hloop, data]
    · simp [line, seen, hbox, hbox', box, data, truncate, Event.handedTo, Event.sizeOf,
        Event.gotBy, Event.returnedBy]
  | @readSize data hloop =>
    simp only [lineAct, if_true, some.injEq] at hact
    subst hact
    refine ⟨data, ?_, ?_⟩
    · simp [line, hbox, box, hloop, LoopPc.data]
    · simp [line, seen, hc, hloop, hbox, hbox', box, LoopPc.data, Event.handedTo, Event.sizeOf,
        Event.gotBy, Event.returnedBy]
  | readDone hmem =>
    simp only [lineAct, if_true, some.injEq] at hact
    subst hact
    refine ⟨?_, ?_⟩
    · simpa [line, hbox, box] using hmem
    · simp [line, seen, hbox, hbox', box, Event.handedTo, Event.sizeOf, Event.gotBy,
        Event.returnedBy]

/-- A call of `Read` that does not overlap another one asks alone. -/
theorem alone_of_successive (hok : Successive (s, t) label)
    (hstep : (udp cfg).step s label s') (hact : lineAct id s label = some act) :
    Pipe.Alone (line id (s, t)) act := by
  obtain ⟨c, hc⟩ := session_of_act hstep hact
  obtain ⟨c', hc', hchange⟩ := session_step hstep hc
  cases hchange with
  | quiet hquiet _ _ =>
    rw [hquiet] at hact
    cases hact
  | spawn _ => cases hact
  | read _ _ =>
    simp only [lineAct, if_true, some.injEq] at hact
    subst hact
    show (s.box id).returning = []
    rw [box_of_session hc]
    exact hok c hc
  | deliver hreader _ =>
    simp only [lineAct, hreader, if_true, some.injEq] at hact
    subst hact
    trivial
  | _ =>
    simp only [lineAct, if_true, some.injEq] at hact
    subst hact
    trivial

theorem line_init {st : Seen} (h : (observed cfg).init st) : line id st = empty := by
  obtain ⟨s, t⟩ := st
  obtain ⟨⟨now, hinit⟩, htrace⟩ := h
  obtain rfl : s = listen now := hinit
  obtain rfl : t = [] := htrace
  rfl

theorem line_change {st st' : Seen} (hs : (observed cfg).Reachable st)
    (hstep : (observed cfg).step st label st') :
    line id st' = line id st ∨ ∃ act, lineAct id st.1 label = some act ∧
      (pipe truncate).step (line id st) act (line id st') := by
  obtain ⟨s, t⟩ := st
  obtain ⟨s', t'⟩ := st'
  obtain ⟨hstep, htrace⟩ := hstep
  obtain rfl : t' = t ++ seen s label := htrace
  have hreach := hs.of_observe
  match hact : lineAct id s label with
  | none =>
    exact .inl (line_quiet (reachable_acceptsUntilShutdown hreach) (unborn_of_reachable hreach)
      hstep hact)
  | some act => exact .inr ⟨act, rfl, line_step hstep hact⟩

/-- What is seen of a session in a run is a run of its pipe. -/
theorem line_reachable {st : Seen} (h : (observed cfg).Reachable st) (id : Nat) :
    (pipe truncate).Reachable (line id st) := by
  refine System.Reachable.map (line id) (fun _ => line_init) ?_ h
  intro st label st' hs hstep
  rcases line_change hs hstep with hsame | ⟨act, _, hact⟩
  · exact .inl hsame
  · exact .inr ⟨act, hact⟩

/-- When its calls of `Read` do not overlap, the consumers of the pipe do not either. -/
theorem line_reachable_restrict {st : Seen} (h : ((observed cfg).restrict Successive).Reachable st)
    (id : Nat) : ((pipe truncate).restrict Pipe.Alone).Reachable (line id st) := by
  refine System.Reachable.map (line id) (fun _ => line_init) ?_ h
  intro st label st' hs ⟨hok, hstep⟩
  rcases line_change hs.of_restrict hstep with hsame | ⟨act, hact, hpipe⟩
  · exact .inl hsame
  · exact .inr ⟨act, alone_of_successive hok hstep.1 hact, hpipe⟩

/-! ## Origin -/

/-- The datagram that the read loop of the listener has in its hands for a session. -/
def ReaderPc.inHand (id : Nat) (rAddr : Addr) : ReaderPc → List Datagram
  | .getConn raddr buf => if raddr = rAddr then [buf] else []
  | .accept id' buf => if id' = id then [buf] else []
  | .spawn id' buf => if id' = id then [buf] else []
  | .deliver id' buf => if id' = id then [buf] else []
  | _ => []

/-- Where the datagrams of sessions come from. -/
structure Carried (s : State) (t : List Event) : Prop where
  asked : ∀ raddr buf, s.reader = .getConn raddr buf → buf ∈ t.filterMap (receivedFrom raddr)
  unborn : ∀ id, s.sessions[id]? = none → t.filterMap (handedTo id) = []
  session : ∀ (id : Nat) (c : Conn), s.sessions[id]? = some c →
    (t.filterMap (handedTo id) ++ s.reader.inHand id c.rAddr).Sublist
      (t.filterMap (receivedFrom c.rAddr))

/-- A session after a step other than `getConn` was there before, with its address. -/
theorem session_before (hacc : AcceptsUntilShutdown s) (hstep : (udp cfg).step s label s')
    (hlabel : label ≠ .getConn) : (s'.sessions[id]? = none → s.sessions[id]? = none) ∧
      ∀ c', s'.sessions[id]? = some c' → ∃ c, s.sessions[id]? = some c ∧ c'.rAddr = c.rAddr := by
  have hkey := congrFun ((registry_step hacc hstep).1 hlabel) id
  simp only [view] at hkey
  refine ⟨fun hnone => ?_, fun c' hc' => ?_⟩
  · rw [hnone, map_none] at hkey
    exact map_eq_none_iff.mp hkey.symm
  · rw [hc', map_some] at hkey
    obtain ⟨c, hc, haddr⟩ := map_eq_some_iff.mp hkey.symm
    exact ⟨c, hc, haddr.symm⟩

/-- A step that creates no session. -/
theorem Carried.of_step (h : Carried s t) (hacc : AcceptsUntilShutdown s)
    (hstep : (udp cfg).step s label s') (hlabel : label ≠ .getConn)
    (hasked : ∀ raddr buf, s'.reader = .getConn raddr buf →
      buf ∈ (t ++ seen s label).filterMap (receivedFrom raddr))
    (hunborn : ∀ id, s.sessions[id]? = none → (seen s label).filterMap (handedTo id) = [])
    (hsession : ∀ id rAddr, ((seen s label).filterMap (handedTo id) ++ s'.reader.inHand id rAddr).Sublist
      (s.reader.inHand id rAddr ++ (seen s label).filterMap (receivedFrom rAddr))) :
    Carried s' (t ++ seen s label) := by
  refine ⟨hasked, fun id hnone => ?_, fun id c' hc' => ?_⟩
  · have hbefore := (session_before hacc hstep hlabel).1 hnone
    rw [filterMap_append, h.unborn id hbefore, hunborn id hbefore, append_nil]
  · obtain ⟨c, hc, haddr⟩ := (session_before hacc hstep hlabel).2 c' hc'
    rw [haddr, filterMap_append, filterMap_append, append_assoc]
    refine ((hsession id c.rAddr).append_left _).trans ?_
    rw [← append_assoc]
    exact (h.session id c hc).append_right _

open ReaderPc

/-- `getConn` takes the datagram to a session of its remote address. -/
theorem Carried.getConn (h : Carried s t)
    (hkeyed : ∀ raddr i, s.conns.lookup raddr = some i → s.sessions[i]?.map rAddr = some raddr)
    {raddr : Addr} {buf : Datagram} (hreader : s.reader = .getConn raddr buf) :
    Carried (Udp.getConn s raddr buf) t := by
  -- what was in hand for another session is left out
  have hother : ∀ {id : Nat} {c : Conn}, s.sessions[id]? = some c →
      (t.filterMap (handedTo id) ++ []).Sublist (t.filterMap (receivedFrom c.rAddr)) :=
    fun hc => ((nil_sublist _).append_left _).trans (h.session _ _ hc)
  unfold Udp.getConn
  split
  · next i hlook =>
    refine ⟨nofun, h.unborn, fun id c hc => ?_⟩
    by_cases hi : i = id
    · subst hi
      have haddr : c.rAddr = raddr := by
        have hkey := hkeyed raddr i hlook
        rw [show s.sessions[i]? = some c from hc, map_some] at hkey
        exact some.inj hkey
      have hsession := h.session i c hc
      rw [hreader, inHand, if_pos haddr.symm] at hsession
      rw [inHand, if_pos rfl]
      exact hsession
    · rw [inHand, if_neg hi]
      exact hother hc
  · split
    · refine ⟨nofun, fun id hnone => h.unborn id ?_, fun id c hc => ?_⟩
      · rw [getElem?_eq_none_iff, length_append, length_singleton] at hnone
        exact getElem?_eq_none (by omega)
      · by_cases hi : s.sessions.length = id
        · subst hi
          rw [getElem?_append_right le_rfl, Nat.sub_self] at hc
          cases hc
          rw [inHand, if_pos rfl, h.unborn _ (getElem?_eq_none le_rfl)]
          exact singleton_sublist.mpr (h.asked raddr buf hreader)
        · have hlt : id < s.sessions.length := by
            have hlen := (List.getElem?_eq_some_iff.mp hc).1
            rw [length_append, length_singleton] at hlen
            omega
          rw [inHand, if_neg hi]
          rw [getElem?_append_left hlt] at hc
          exact hother hc
    · exact ⟨nofun, h.unborn, fun _ _ => hother⟩

/-- The other goroutines neither receive datagrams nor hand them to sessions. -/
theorem seen_of_ofReader (hlabel : label.ofReader = false) :
    (∀ id, (seen s label).filterMap (handedTo id) = []) ∧
      ∀ raddr, (seen s label).filterMap (receivedFrom raddr) = [] := by
  cases label with
  | read i size => exact ⟨fun _ => rfl, fun _ => rfl⟩
  | readSize i =>
    simp only [seen]
    cases s.sessions[i]?.bind (·.loop.data) with
    | none | some data => exact ⟨fun _ => rfl, fun _ => rfl⟩
  | readDone i data => exact ⟨fun _ => rfl, fun _ => rfl⟩
  | tick _ | checkDeadline _ | write _ | close _ | delete _ | shutdown _ | pollShutdown
  | closeListener | elapse _ => exact ⟨fun _ => rfl, fun _ => rfl⟩
  | _ => cases hlabel

theorem Carried.step (h : Carried s t) (hacc : AcceptsUntilShutdown s)
    (hkeyed : ∀ raddr i, s.conns.lookup raddr = some i → s.sessions[i]?.map rAddr = some raddr)
    (hstep : (udp cfg).step s label s') : Carried s' (t ++ seen s label) := by
  match hlabel : label.ofReader with
  | false =>
    obtain ⟨hhanded, hrecv⟩ := seen_of_ofReader (s := s) hlabel
    have hreader := reader_of_step hlabel hstep
    refine h.of_step hacc hstep ?_ (fun raddr buf hget => ?_) (fun id _ => hhanded id) fun id rAddr => ?_
    · rintro rfl
      cases hlabel
    · rw [filterMap_append, hrecv, append_nil]
      rw [hreader] at hget
      exact h.asked raddr buf hget
    · rw [hhanded, hrecv, hreader, append_nil, nil_append]
  | true =>
    cases label with
    | packet raddr buf =>
      have hstep' := hstep
      obtain ⟨hreader, _, rfl⟩ := hstep'
      refine h.of_step hacc hstep nofun (fun raddr' buf' hget => ?_) (fun _ _ => rfl) fun id rAddr => ?_
      · cases hget
        simp [seen, receivedFrom]
      · rw [hreader]
        by_cases haddr : raddr = rAddr <;>
          simp [seen, receivedFrom, handedTo, inHand, haddr]
    | getConn =>
      obtain ⟨raddr, buf, hreader, rfl⟩ := hstep
      rw [show seen s .getConn = [] from rfl, append_nil]
      exact h.getConn hkeyed hreader
    | readError =>
      have hstep' := hstep
      obtain ⟨_, rfl⟩ := hstep'
      exact h.of_step hacc hstep nofun nofun (fun _ _ => rfl) fun _ _ => nil_sublist _
    | discard =>
      have hstep' := hstep
      obtain ⟨_, _, _, _, _, _, rfl⟩ := hstep'
      exact h.of_step hacc hstep nofun nofun (fun _ _ => rfl) fun _ _ => nil_sublist _
    | accept | spawn =>
      have hstep' := hstep
      obtain ⟨i, buf, hreader, rfl⟩ := hstep'
      refine h.of_step hacc hstep nofun nofun (fun _ _ => rfl) fun id rAddr => ?_
      rw [hreader]
      exact sublist_append_left ..
    | deliver =>
      have hstep' := hstep
      obtain ⟨i, buf, c, hreader, hc, _, rfl⟩ := hstep'
      have hseen : seen s .deliver = [.handed i buf] := by
        simp only [seen, hreader]
      refine h.of_step hacc hstep nofun nofun (fun id hnone => ?_) fun id rAddr => ?_
      · have hi : i ≠ id := by
          rintro rfl
          rw [hc] at hnone
          cases hnone
        rw [hseen]
        simp [handedTo, hi]
      · rw [hseen, hreader]
        by_cases hi : i = id <;> simp [handedTo, receivedFrom, inHand, hi]
    | _ => cases hlabel

theorem carried_of_reachable {st : Seen} (h : (observed cfg).Reachable st) : Carried st.1 st.2 := by
  induction h with
  | init hs =>
    obtain ⟨⟨now, hinit⟩, htrace⟩ := hs
    rw [hinit, htrace]
    exact ⟨nofun, fun _ _ => rfl, nofun⟩
  | step label hs hstep ih =>
    have hreach := hs.of_observe
    have hkeyed := Registry.wellKeyed_of_reachable (view_reachable hreach)
    rw [hstep.2]
    exact ih.step (reachable_acceptsUntilShutdown hreach) hkeyed.key_of_entry hstep.1

/-! ## The channel of sessions -/

/-- A session is sent on `acceptCh` only while the channel is open. -/
def SendsOpen (s : State) : Prop :=
  ∀ id buf, s.reader = .accept id buf → s.shutdown ≠ .closed

theorem SendsOpen.step (h : SendsOpen s) (hacc : AcceptsUntilShutdown s)
    (hstep : (udp cfg).step s label s') : SendsOpen s' := by
  intro id buf hreader hclosed
  match hlabel : label.ofReader with
  | false =>
    rw [reader_of_step hlabel hstep] at hreader
    by_cases hclose : label = .closeListener
    · -- the mutex is held while the session is sent
      subst hclose
      have hlocked := hstep.2.1
      rw [State.locked, hreader] at hlocked
      cases hlocked
    · have hshut : (view s).shut := by
        rw [← (registry_step hacc hstep).2 hclose]
        exact hclosed
      exact h id buf hreader hshut
  | true =>
    cases label with
    | packet raddr buf => obtain ⟨_, _, rfl⟩ := hstep; cases hreader
    | readError => obtain ⟨_, rfl⟩ := hstep; cases hreader
    | getConn =>
      obtain ⟨raddr, buf', _, rfl⟩ := hstep
      rw [(getConn_accepting raddr buf').2] at hclosed
      unfold getConn at hreader
      split at hreader
      · cases hreader
      · split at hreader
        · next haccepting =>
          rw [hacc haccepting] at hclosed
          cases hclosed
        · cases hreader
    | accept | spawn => obtain ⟨_, _, _, rfl⟩ := hstep; cases hreader
    | deliver | discard => obtain ⟨_, _, _, _, _, _, rfl⟩ := hstep; cases hreader
    | _ => cases hlabel

theorem sendsOpen_of_reachable (h : (udp cfg).Reachable s) : SendsOpen s := by
  induction h with
  | init hs =>
    obtain ⟨now, hinit⟩ := hs
    rw [hinit]
    nofun
  | step label hs hstep ih => exact ih.step (reachable_acceptsUntilShutdown hs) hstep

/-! ## Delivery in order -/

/-- **Delivery in order**: the calls of `Read` of a session get, each cut to its buffer, the
    datagrams that the session was handed, in order, and return them in order when they do not
    overlap; the datagrams came from the remote address of the session; and nothing is sent on
    `acceptCh` after it was closed. -/
theorem reads_in_order {st : Seen} (h : (observed cfg).Reachable st) :
    (∀ id, st.2.filterMap (gotBy id) <+:
      zipWith truncate (st.2.filterMap (sizeOf id)) (st.2.filterMap (handedTo id))) ∧
    (((observed cfg).restrict Successive).Reachable st → ∀ id, st.2.filterMap (returnedBy id) <+:
      zipWith truncate (st.2.filterMap (sizeOf id)) (st.2.filterMap (handedTo id))) ∧
    (∀ (id : Nat) (c : Conn), st.1.sessions[id]? = some c →
      (st.2.filterMap (handedTo id)).Sublist (st.2.filterMap (receivedFrom c.rAddr))) ∧
    ∀ id buf, st.1.reader = .accept id buf → st.1.shutdown ≠ .closed := by
  refine ⟨fun id => ?_, fun hsuccessive id => ?_, fun id c hc => ?_, ?_⟩
  · exact answers_in_order (line_reachable h id)
  · exact returns_in_order (line_reachable_restrict hsuccessive id)
  · exact (sublist_append_left ..).trans ((carried_of_reachable h).session id c hc)
  · exact sendsOpen_of_reachable h.of_observe

/-- A datagram of two bytes from remote `a`, read into one byte. -/
def shortRead : Seen where
  fst := { listen 0 with
    conns := (∅ : Finmap fun _ : Addr => Nat).insert "a" 0
    sessions := [{ newConn "a" with accepted := true, loop := .select, lastActivity := some 0 }] }
  snd := [.received "a" [1, 2], .handed 0 [1, 2], .reading 0 1, .got 0 [1], .returned 0 [1]]

theorem shortRead_reachable : ((observed sampleConfig).restrict Successive).Reachable shortRead := by
  let sys := (observed sampleConfig).restrict Successive
  have hinit : sys.Reachable (listen 0, []) := .init ⟨⟨0, rfl⟩, rfl⟩
  have hrecv : sys.Reachable (_, _) :=
    .step (.packet "a" [1, 2]) hinit ⟨trivial, ⟨rfl, by decide, rfl⟩, rfl⟩
  have hcreated : sys.Reachable (_, _) := .step .getConn hrecv ⟨trivial, ⟨_, _, rfl, rfl⟩, rfl⟩
  have hacc : sys.Reachable (_, _) := .step .accept hcreated ⟨trivial, ⟨_, _, rfl, rfl⟩, rfl⟩
  have hspawned : sys.Reachable (_, _) := .step .spawn hacc ⟨trivial, ⟨_, _, rfl, rfl⟩, rfl⟩
  have hhanded : sys.Reachable (_, _) :=
    .step .deliver hspawned ⟨trivial, ⟨_, _, _, rfl, rfl, rfl, rfl⟩, rfl⟩
  have hreading : sys.Reachable (_, _) :=
    .step (.read 0 1) hhanded ⟨by rintro c ⟨⟩; rfl, ⟨_, _, _, rfl, rfl, rfl, rfl, rfl⟩, rfl⟩
  have hgot : sys.Reachable (_, _) :=
    .step (.readSize 0) hreading ⟨trivial, ⟨_, _, rfl, rfl, rfl⟩, rfl⟩
  exact .step (.readDone 0 [1]) hgot ⟨trivial, ⟨_, rfl, by decide, rfl⟩, rfl⟩

theorem shortRead_in_order : ((observed sampleConfig).restrict Successive).Reachable shortRead ∧
    shortRead.2.filterMap (returnedBy 0) <+: zipWith truncate
      (shortRead.2.filterMap (sizeOf 0)) (shortRead.2.filterMap (handedTo 0)) :=
  ⟨shortRead_reachable, (reads_in_order shortRead_reachable.of_restrict).2.1 shortRead_reachable 0⟩

end Ingress.Udp
