import Ingress.Framework.System
import Mathlib.Tactic

/-! # The Ring Channel

    `RingChannel` of `pkg/provider/aggregator`: a goroutine between the input and the
    output of a throttled provider, with room for one message.  A message that arrives
    while another waits for a reader takes its place.

    * `ring`: the goroutine, a sender of a list of messages that then closes the input,
      and readers that come and go, one label per atomic step.
    * `Inv`: the message that waits is the last one taken, and what was delivered came
      before it.
    * `ringBuffer_keeps_last`: messages are delivered in order and at most once, no send
      waits for a reader, and the last message is delivered. -/

open LTS List

namespace Ingress.Aggregator

/-! ## State -/

/-- Where `ringBuffer` stands. -/
inductive Pc where
  /-- The condition of the loop. -/
  | loop
  /-- The select with a default case. -/
  | prefer
  /-- The inner select. -/
  | select
  /-- What follows the selects. -/
  | settle
  /-- The output is closed. -/
  | returned
  deriving DecidableEq, Repr

/-- The goroutine, its two channels and those who use them. -/
structure State (Message : Type) where
  pc : Pc
  /-- The variable `input` is not nil. -/
  input : Bool
  /-- The variable `output` is not nil. -/
  output : Bool
  next : Message
  buffer : Option Message
  /-- What the sender has still to send; it then closes the input. -/
  toSend : List Message
  /-- The sender is blocked in a send of the first of them. -/
  offering : Bool
  closed : Bool
  /-- The readers that are blocked in a receive on the output. -/
  readers : ℕ
  /-- What was received on the input so far. -/
  accepted : List Message
  /-- What was received on the output so far. -/
  delivered : List Message

/-- The steps of the goroutine, and of the sender and the readers. -/
inductive Label where
  | loop
  | sendFirst
  | skip
  | receive
  | receiveClosed
  | send
  | settle
  | offer
  | close
  | arrive
  | leave
  deriving DecidableEq, Repr

/-- The steps of the goroutine. -/
def Label.own : Label → Bool
  | .offer | .close | .arrive | .leave => false
  | _ => true

variable {Message : Type}

/-- A send on the output can go ahead. -/
def State.ready (s : State Message) : Prop :=
  s.output = true ∧ 0 < s.readers

/-- The send of `next` to a reader. -/
def State.deliver (s : State Message) : State Message :=
  { s with
    pc := .settle
    buffer := none
    readers := s.readers - 1
    delivered := s.delivered ++ [s.next] }

/-- One step.  A select takes one of the cases that can go ahead, and the default case
    only when there is none. -/
def step (s : State Message) (l : Label) (s' : State Message) : Prop :=
  match l with
  | .loop =>
      s.pc = .loop ∧
      s' = { s with pc := if s.input || s.output then .prefer else .returned }
  | .sendFirst => s.pc = .prefer ∧ s.ready ∧ s' = s.deliver
  | .skip => s.pc = .prefer ∧ ¬ s.ready ∧ s' = { s with pc := .select }
  | .receive =>
      s.pc = .select ∧ s.input = true ∧ s.offering = true ∧
      ∃ elem rest, s.toSend = elem :: rest ∧
        s' = { s with
          pc := .settle
          buffer := some elem
          toSend := rest
          offering := false
          accepted := s.accepted ++ [elem] }
  | .receiveClosed =>
      s.pc = .select ∧ s.input = true ∧ s.closed = true ∧
      s' = { s with pc := .settle, input := false }
  | .send => s.pc = .select ∧ s.ready ∧ s' = s.deliver
  | .settle =>
      s.pc = .settle ∧
      s' = match s.buffer with
        | none => { s with pc := .loop, output := false }
        | some m => { s with pc := .loop, output := true, next := m }
  | .offer => s.toSend ≠ [] ∧ s.offering = false ∧ s' = { s with offering := true }
  | .close => s.toSend = [] ∧ s.closed = false ∧ s' = { s with closed := true }
  | .arrive => s' = { s with readers := s.readers + 1 }
  | .leave => 0 < s.readers ∧ s' = { s with readers := s.readers - 1 }

/-- `newRingChannel`, and a sender of `inputs`. -/
def newRingChannel [Inhabited Message] (inputs : List Message) : State Message where
  pc := .loop
  input := true
  output := false
  next := default
  buffer := none
  toSend := inputs
  offering := false
  closed := false
  readers := 0
  accepted := []
  delivered := []

/-- All interleavings. -/
def ring [Inhabited Message] (inputs : List Message) : System (State Message) Label where
  init := fun s => s = newRingChannel inputs
  step := step

/-! ## The invariant -/

/-- What was delivered, against what was taken and still waits. -/
def Kept (buffer : Option Message) (accepted delivered : List Message) : Prop :=
  match buffer with
  | some m => ∃ front, accepted = front ++ [m] ∧ delivered.Sublist front
  | none => delivered.Sublist accepted ∧ delivered.getLast? = accepted.getLast?

theorem Kept.sublist {buffer : Option Message} {accepted delivered : List Message}
    (h : Kept buffer accepted delivered) : delivered.Sublist accepted := by
  cases buffer with
  | none => exact h.1
  | some m =>
    obtain ⟨front, rfl, hsub⟩ := h
    exact hsub.trans (sublist_append_left front [m])

structure Inv (inputs : List Message) (s : State Message) : Prop where
  split : inputs = s.accepted ++ s.toSend
  kept : Kept s.buffer s.accepted s.delivered
  /-- Outside of `settle` the variables agree with the buffer. -/
  synced : s.pc ≠ .settle → s.output = s.buffer.isSome ∧ ∀ m ∈ s.buffer, s.next = m
  offering : s.offering = true → s.toSend ≠ []
  closed : s.closed = true → s.toSend = []
  drained : s.input = false → s.closed = true
  running : s.pc = .prefer ∨ s.pc = .select → (s.input || s.output) = true
  returned : s.pc = .returned → s.input = false ∧ s.output = false

variable {inputs : List Message} {s : State Message}

/-- A message that waits is delivered after all that came before it. -/
theorem Inv.deliver (h : Inv inputs s)
    (hpc : s.pc ≠ .settle) (hout : s.output = true) : Inv inputs s.deliver := by
  obtain ⟨hsome, hnext⟩ := h.synced hpc
  rw [hout] at hsome
  obtain ⟨m, hm⟩ := Option.isSome_iff_exists.mp hsome.symm
  obtain ⟨front, hfront, hsub⟩ : ∃ front, s.accepted = front ++ [m] ∧ s.delivered.Sublist front := by
    have hkept := h.kept
    rw [hm] at hkept
    exact hkept
  have hmsg : s.next = m := hnext m hm
  refine { h with kept := ⟨?_, ?_⟩, synced := absurd rfl, running := nofun, returned := nofun }
  · show (s.delivered ++ [s.next]).Sublist s.accepted
    rw [hfront, hmsg]
    exact hsub.append (.refl [m])
  · show (s.delivered ++ [s.next]).getLast? = s.accepted.getLast?
    rw [hfront, hmsg, getLast?_append, getLast?_append]
    rfl

variable {s s' : State Message} {l : Label}

theorem Inv.step (h : Inv inputs s) (hst : step s l s') : Inv inputs s' := by
  match l with
  | .loop =>
    obtain ⟨hpc, rfl⟩ := hst
    have hsynced := h.synced (by rw [hpc]; decide)
    refine { h with synced := fun _ => hsynced, running := fun hrun => ?_, returned := fun hret => ?_ }
    · by_contra hon
      simp [hon] at hrun
    · by_cases hon : (s.input || s.output) = true
      · simp [hon] at hret
      · simpa using hon
  | .sendFirst | .send =>
    obtain ⟨hpc, hready, rfl⟩ := hst
    exact h.deliver (by rw [hpc]; decide) hready.1
  | .skip =>
    obtain ⟨hpc, _, rfl⟩ := hst
    have hsynced := h.synced (by rw [hpc]; decide)
    exact { h with synced := fun _ => hsynced, running := fun _ => h.running (.inl hpc), returned := nofun }
  | .receive =>
    obtain ⟨_, _, _, elem, rest, hsend, rfl⟩ := hst
    refine { split := ?_, kept := ⟨s.accepted, rfl, h.kept.sublist⟩, synced := absurd rfl,
             offering := nofun, closed := fun hcl => ?_,
             drained := h.drained, running := nofun, returned := nofun }
    · show inputs = (s.accepted ++ [elem]) ++ rest
      rw [h.split, hsend, append_assoc, singleton_append]
    · have hnil := h.closed hcl
      rw [hsend] at hnil
      exact absurd hnil (cons_ne_nil elem rest)
  | .receiveClosed =>
    obtain ⟨_, _, hcl, rfl⟩ := hst
    exact { h with
      synced := absurd rfl
      drained := fun _ => hcl
      running := nofun
      returned := nofun }
  | .settle =>
    obtain ⟨_, rfl⟩ := hst
    have hkept := h.kept
    cases hbuf : s.buffer with
    | none =>
      rw [hbuf] at hkept
      exact { h with kept := hkept, synced := fun _ => ⟨rfl, nofun⟩, running := nofun, returned := nofun }
    | some m =>
      rw [hbuf] at hkept
      exact { h with
        kept := hkept
        synced := fun _ => ⟨rfl, fun _ => Option.some.inj⟩
        running := nofun
        returned := nofun }
  | .offer =>
    obtain ⟨hsend, _, rfl⟩ := hst
    exact { h with offering := fun _ => hsend }
  | .close =>
    obtain ⟨hsend, _, rfl⟩ := hst
    exact { h with closed := fun _ => hsend, drained := fun _ => rfl }
  | .arrive =>
    obtain rfl := hst
    exact { h with }
  | .leave =>
    obtain ⟨_, rfl⟩ := hst
    exact { h with }

theorem inv_of_reachable [Inhabited Message] (h : (ring inputs).Reachable s) : Inv inputs s := by
  refine System.invariant (Inv inputs) ?_ (fun s l s' hinv hst => hinv.step hst) h
  intro s hs
  rw [show s = newRingChannel inputs from hs]
  exact { split := rfl, kept := ⟨.refl [], rfl⟩, synced := fun _ => ⟨rfl, nofun⟩,
          offering := nofun, closed := nofun, drained := nofun, running := nofun, returned := nofun }

/-! ## Progress -/

/-- How many steps the goroutine is away from the inner select, or from its end. -/
def Pc.rank : Pc → ℕ
  | .settle => 3
  | .loop => 2
  | .prefer => 1
  | .select => 0
  | .returned => 0

/-- A bound on the steps the goroutine can take without a message from the sender: each
    round of the loop either delivers what waits or finds the input closed. -/
def State.rank (s : State Message) : ℕ :=
  s.pc.rank + (if s.buffer.isSome then 4 else 0) + if s.input then 4 else 0

open State

theorem State.rank_le (s : State Message) : s.rank ≤ 11 := by
  have hpc : s.pc.rank ≤ 3 := by cases s.pc <;> decide
  unfold rank
  split <;> split <;> omega

theorem Inv.rank_deliver (h : Inv inputs s)
    (hpc : s.pc ≠ .settle) (hout : s.output = true) : s.deliver.rank < s.rank := by
  obtain ⟨hsome, _⟩ := h.synced hpc
  have hbuf : s.buffer.isSome = true := by rw [← hsome, hout]
  show 3 + 0 + (if s.input then 4 else 0) < s.pc.rank + (if s.buffer.isSome then 4 else 0) + _
  rw [hbuf]
  simp only [if_true]
  omega

/-- Every step of the goroutine takes a message, ends the loop or lowers the rank. -/
theorem Inv.rank_own (h : Inv inputs s) (hst : Aggregator.step s l s') (hown : l.own = true) :
    l = .receive ∨ s'.pc = .returned ∨ s'.rank < s.rank := by
  match l with
  | .loop =>
    obtain ⟨hpc, rfl⟩ := hst
    by_cases hon : (s.input || s.output) = true
    · right; right
      simp only [rank, hpc, hon, if_true, Pc.rank]
      omega
    · right; left
      simp [hon]
  | .sendFirst | .send =>
    obtain ⟨hpc, hready, rfl⟩ := hst
    exact .inr (.inr (h.rank_deliver (by rw [hpc]; decide) hready.1))
  | .skip =>
    obtain ⟨hpc, _, rfl⟩ := hst
    right; right
    simp only [rank, hpc, Pc.rank]
    omega
  | .receive => exact .inl rfl
  | .receiveClosed =>
    obtain ⟨hpc, hin, _, rfl⟩ := hst
    right; right
    simp only [rank, hpc, hin, Pc.rank, if_true, Bool.false_eq_true, if_false]
    omega
  | .settle =>
    obtain ⟨hpc, rfl⟩ := hst
    right; right
    cases hbuf : s.buffer <;>
      (simp only [rank, hpc, hbuf, Pc.rank]; omega)

/-- The steps of the sender and the readers leave the goroutine where it is. -/
theorem rank_other (hst : step s l s') (hown : l.own = false) :
    s'.rank = s.rank ∧ s'.pc = s.pc := by
  match l with
  | .offer | .close => obtain ⟨_, _, rfl⟩ := hst; exact ⟨rfl, rfl⟩
  | .arrive => obtain rfl := hst; exact ⟨rfl, rfl⟩
  | .leave => obtain ⟨_, rfl⟩ := hst; exact ⟨rfl, rfl⟩

/-- Only a receive changes what was taken, and the send that is blocked. -/
theorem accepted_step (hst : step s l s') :
    (l = .receive ∧ s'.accepted.length = s.accepted.length + 1) ∨
    (l ≠ .receive ∧ s'.accepted = s.accepted ∧ (s.offering = true → s'.offering = true) ∧
      (s.closed = true → s'.closed = true)) := by
  match l with
  | .receive =>
    obtain ⟨_, _, _, elem, rest, _, rfl⟩ := hst
    exact .inl ⟨rfl, by simp⟩
  | .loop | .leave => obtain ⟨_, rfl⟩ := hst; exact .inr ⟨nofun, rfl, id, id⟩
  | .sendFirst | .skip | .send => obtain ⟨_, _, rfl⟩ := hst; exact .inr ⟨nofun, rfl, id, id⟩
  | .receiveClosed => obtain ⟨_, _, _, rfl⟩ := hst; exact .inr ⟨nofun, rfl, id, id⟩
  | .settle =>
    obtain ⟨_, rfl⟩ := hst
    right
    cases s.buffer <;> exact ⟨nofun, rfl, id, id⟩
  | .offer => obtain ⟨_, _, rfl⟩ := hst; exact .inr ⟨nofun, rfl, fun _ => rfl, id⟩
  | .close => obtain ⟨_, _, rfl⟩ := hst; exact .inr ⟨nofun, rfl, id, fun _ => rfl⟩
  | .arrive => obtain rfl := hst; exact .inr ⟨nofun, rfl, id, id⟩

open Label

/-- The goroutine is never blocked while a send waits, nor, once the input is closed,
    while a reader waits. -/
theorem Inv.enabled (h : Inv inputs s)
    (hwait : s.offering = true ∨ (s.closed = true ∧ s.pc ≠ .returned ∧ 0 < s.readers)) :
    ∃ l s', own l = true ∧ Aggregator.step s l s' := by
  cases hpc : s.pc with
  | loop => exact ⟨.loop, _, rfl, hpc, rfl⟩
  | prefer =>
    by_cases hready : s.ready
    · exact ⟨.sendFirst, _, rfl, hpc, hready, rfl⟩
    · exact ⟨.skip, _, rfl, hpc, hready, rfl⟩
  | settle => exact ⟨.settle, _, rfl, hpc, rfl⟩
  | returned =>
    -- the goroutine has found the input closed, so there is no send
    obtain hoff | ⟨_, hret, _⟩ := hwait
    · exact absurd (h.closed (h.drained (h.returned hpc).1)) (h.offering hoff)
    · exact absurd hpc hret
  | select =>
    cases hin : s.input with
    | true =>
      obtain hoff | ⟨hcl, _, _⟩ := hwait
      · obtain ⟨elem, rest, hsend⟩ := exists_cons_of_ne_nil (h.offering hoff)
        exact ⟨.receive, _, rfl, hpc, hin, hoff, elem, rest, hsend, rfl⟩
      · exact ⟨.receiveClosed, _, rfl, hpc, hin, hcl, rfl⟩
    | false =>
      obtain hoff | ⟨_, _, hreaders⟩ := hwait
      · exact absurd (h.closed (h.drained hin)) (h.offering hoff)
      · have hout : s.output = true := by
          have hon := h.running (.inr hpc)
          rw [hin, Bool.false_or] at hon
          exact hon
        exact ⟨.send, _, rfl, hpc, ⟨hout, hreaders⟩, rfl⟩

/-- A blocked send is taken within twelve steps of the goroutine, whatever the readers do
    in between. -/
theorem send_taken [Inhabited Message]
    {ls : List Label} (hs : (ring inputs).Reachable s) (hoff : s.offering = true)
    (hrun : (ring inputs).Run s ls s') (hcount : 12 ≤ ls.countP own) :
    s.accepted.length < s'.accepted.length := by
  have hrank := s.rank_le
  refine System.Run.within
    (fun t => Inv inputs t ∧ (s.accepted.length < t.accepted.length ∨
      (s.accepted.length = t.accepted.length ∧ t.offering = true)))
    (fun t => s.accepted.length < t.accepted.length) own rank ?_ ?_ ?_ ?_
    ⟨inv_of_reachable hs, .inr ⟨rfl, hoff⟩⟩ hrun (by omega)
  · intro t l t' ⟨hinv, hwait⟩ hst
    refine ⟨hinv.step hst, ?_⟩
    obtain ⟨_, hlen⟩ | ⟨_, hsame, hkeeps, _⟩ := accepted_step hst
    · left
      rcases hwait with hlt | ⟨heq, _⟩ <;> omega
    · rw [hsame]
      rcases hwait with hlt | ⟨heq, hoff'⟩
      · exact .inl hlt
      · exact .inr ⟨heq, hkeeps hoff'⟩
  · intro t l t' hlt hst
    obtain ⟨_, hlen⟩ | ⟨_, hsame, _⟩ := accepted_step hst
    · omega
    · rw [hsame]
      exact hlt
  · intro t l t' ⟨hinv, hwait⟩ hown hst
    rcases hwait with hlt | ⟨heq, hoff'⟩
    · left
      obtain ⟨_, hlen⟩ | ⟨_, hsame, _⟩ := accepted_step hst
      · omega
      · rw [hsame]
        exact hlt
    · obtain ⟨_, hlen⟩ | ⟨hne, hsame, hkeeps, _⟩ := accepted_step hst
      · left
        omega
      · -- the loop does not end while there is a send
        have hinv' := hinv.step hst
        rcases hinv.rank_own hst hown with hrec | hret | hlt
        · exact absurd hrec hne
        · exact absurd (hinv'.closed (hinv'.drained (hinv'.returned hret).1))
            (hinv'.offering (hkeeps hoff'))
        · exact .inr hlt
  · intro t l t' _ hown hst
    exact .inr (le_of_eq (rank_other hst hown).1)

/-- Once the input is closed, the output is closed within twelve steps of the goroutine. -/
theorem output_closed [Inhabited Message]
    {ls : List Label} (hs : (ring inputs).Reachable s) (hcl : s.closed = true)
    (hrun : (ring inputs).Run s ls s') (hcount : 12 ≤ ls.countP own) : s'.pc = .returned := by
  have hrank := s.rank_le
  have hno : ∀ {t l t'}, Inv inputs t → t.closed = true → Aggregator.step t l t' → l ≠ .receive := by
    intro t l t' hinv hclosed hst hrec
    subst hrec
    obtain ⟨_, _, hoff, _⟩ := hst
    exact hinv.offering hoff (hinv.closed hclosed)
  refine System.Run.within (fun t => Inv inputs t ∧ t.closed = true) (fun t => t.pc = .returned)
    own rank ?_ ?_ ?_ ?_ ⟨inv_of_reachable hs, hcl⟩ hrun (by omega)
  · intro t l t' ⟨hinv, hclosed⟩ hst
    obtain ⟨hrec, _⟩ | ⟨_, _, _, hkeeps⟩ := accepted_step hst
    · exact absurd hrec (hno hinv hclosed hst)
    · exact ⟨hinv.step hst, hkeeps hclosed⟩
  · intro t l t' hret hst
    match l with
    | .offer | .close => obtain ⟨_, _, rfl⟩ := hst; exact hret
    | .arrive => obtain rfl := hst; exact hret
    | .leave => obtain ⟨_, rfl⟩ := hst; exact hret
    | .loop | .sendFirst | .skip | .receive | .receiveClosed | .send | .settle =>
      have hpc := hst.1
      rw [hret] at hpc
      exact absurd hpc (by decide)
  · intro t l t' ⟨hinv, hclosed⟩ hown hst
    exact (hinv.rank_own hst hown).resolve_left (hno hinv hclosed hst)
  · intro t l t' _ hown hst
    exact .inr (le_of_eq (rank_other hst hown).1)

/-! ## The ring channel -/

/-- **Only stale messages are dropped.**  In every reachable state:

    * what was delivered is a subsequence of the messages sent, none of them twice;
    * a send that is blocked never finds the goroutine blocked, and is taken within
      twelve of its steps, whether or not there is a reader;
    * when the output is closed, the last message delivered is the last one sent; and
      after the input is closed that is the case within twelve steps of the goroutine,
      which is not blocked while a reader waits. -/
theorem ringBuffer_keeps_last [Inhabited Message] (inputs : List Message) {s : State Message}
    (h : (ring inputs).Reachable s) :
    s.delivered.Sublist inputs ∧
    (inputs.Nodup → s.delivered.Nodup) ∧
    (s.offering = true →
      (∃ l s', own l = true ∧ (ring inputs).step s l s') ∧
      ∀ ls s', (ring inputs).Run s ls s' → 12 ≤ ls.countP own →
        s.accepted.length < s'.accepted.length) ∧
    (s.pc = .returned → s.delivered.getLast? = inputs.getLast?) ∧
    (s.closed = true →
      (s.pc ≠ .returned → 0 < s.readers → ∃ l s', own l = true ∧ (ring inputs).step s l s') ∧
      ∀ ls s', (ring inputs).Run s ls s' → 12 ≤ ls.countP own → s'.pc = .returned) := by
  have hinv := inv_of_reachable h
  have hsub : s.delivered.Sublist inputs := by
    rw [hinv.split]
    exact hinv.kept.sublist.trans (sublist_append_left s.accepted s.toSend)
  refine ⟨hsub, fun hnd => hnd.sublist hsub, fun hoff => ⟨hinv.enabled (.inl hoff), ?_⟩, ?_,
    fun hcl => ⟨fun hpc hreaders => hinv.enabled (.inr ⟨hcl, hpc, hreaders⟩), ?_⟩⟩
  · intro ls s' hrun hcount
    exact send_taken h hoff hrun hcount
  · intro hret
    -- the loop ends with nothing left to send or to deliver
    obtain ⟨hin, hout⟩ := hinv.returned hret
    have hbuf : s.buffer = none := by
      have hsome := (hinv.synced (by rw [hret]; decide)).1
      rw [hout] at hsome
      exact Option.isSome_eq_false_iff.mp hsome.symm |> Option.isNone_iff_eq_none.mp
    have hkept := hinv.kept
    rw [hbuf] at hkept
    rw [hinv.split, hinv.closed (hinv.drained hin), append_nil]
    exact hkept.2
  · intro ls s' hrun hcount
    exact output_closed h hcl hrun hcount

/-- A run of two messages, the first of which is replaced by the second before a reader
    comes. -/
theorem ring_two : ∃ s, (ring [1, 2]).Reachable s ∧ s.pc = .returned ∧ s.delivered = [2] ∧
    s.delivered.getLast? = [1, 2].getLast? := by
  have hrun : (ring [1, 2]).Run (newRingChannel [1, 2])
      [.loop, .skip, .offer, .receive, .settle, .loop, .skip, .offer, .receive, .settle, .loop,
       .arrive, .sendFirst, .settle, .close, .loop, .skip, .receiveClosed, .settle, .loop]
      { newRingChannel [1, 2] with
        pc := .returned, input := false, next := 2, toSend := [], closed := true
        accepted := [1, 2], delivered := [2] } := by
    refine .cons _ ⟨rfl, rfl⟩ <| .cons _ ⟨rfl, nofun, rfl⟩ <| .cons _ ⟨nofun, rfl, rfl⟩ <|
      .cons _ ⟨rfl, rfl, rfl, _, _, rfl, rfl⟩ <| .cons _ ⟨rfl, rfl⟩ <| .cons _ ⟨rfl, rfl⟩ <|
      .cons _ ⟨rfl, by simp [ready, newRingChannel], rfl⟩ <| .cons _ ⟨nofun, rfl, rfl⟩ <|
      .cons _ ⟨rfl, rfl, rfl, _, _, rfl, rfl⟩ <| .cons _ ⟨rfl, rfl⟩ <| .cons _ ⟨rfl, rfl⟩ <|
      .cons _ rfl <| .cons _ ⟨rfl, ⟨rfl, Nat.one_pos⟩, rfl⟩ <| .cons _ ⟨rfl, rfl⟩ <|
      .cons _ ⟨rfl, rfl, rfl⟩ <| .cons _ ⟨rfl, rfl⟩ <| .cons _ ⟨rfl, nofun, rfl⟩ <|
      .cons _ ⟨rfl, rfl, rfl, rfl⟩ <| .cons _ ⟨rfl, rfl⟩ <| .cons _ ⟨rfl, rfl⟩ <| .nil _
  have hreach := System.Reachable.of_run (.init rfl) hrun
  exact ⟨_, hreach, rfl, rfl, (ringBuffer_keeps_last [1, 2] hreach).2.2.2.1 rfl⟩

end Ingress.Aggregator
