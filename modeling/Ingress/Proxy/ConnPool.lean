import Ingress.Framework.System
import Mathlib.Algebra.Order.Group.Multiset

/-! # The Connection Pool of the Fast Proxy

    `connPool` of `pkg/proxy/fast/connpool.go`: idle connections wait in a channel.  A
    call that finds none starts a dial and waits for a connection out of the channel, be
    it that of its own dial or not, or for the error of its own dial.

    A send on the channel goes to a call that is blocked in its select, if there is one;
    otherwise to the buffer, if there is room; otherwise the connection is closed.  Whether
    a connection is stale is not decided here: a stale one is closed by whoever holds it.

    * `pool`: the calls, the dials and the cleaning, one label per channel operation.
    * `balance`: what a step does to the calls that wait and to what they wait for.
    * `never_stranded`: no call is left waiting for nothing. -/

open List LTS Nat

namespace Ingress.ConnPool

/-! ## The state -/

/-- Where a call of `acquireConn` stands. -/
inductive Call where
  /-- Before the first select. -/
  | start
  /-- `askForNewConn` is started and the second select comes next.  `err`: the error of
      the dial is in `errCh`. -/
  | asked (err : Bool)
  /-- Blocked in the second select. -/
  | blocked
  /-- Returned a connection. -/
  | served
  /-- Returned the error of its dial. -/
  | failed
  deriving DecidableEq, Repr

/-- The calls and connections of a pool.  A call is known by its place in `calls`, a
    connection by the number of those dialled before it. -/
structure State where
  calls : List Call
  /-- The calls of `askForNewConn` that are running, by the call they were started for. -/
  dials : List ℕ
  /-- `idleConns`. -/
  idle : List ℕ
  /-- The connections that `cleanIdleConns` has received and looks at. -/
  cleaning : List ℕ
  /-- The connections that calls have returned. -/
  held : List ℕ
  /-- The connections dialled so far. -/
  next : ℕ
  deriving DecidableEq, Repr

/-- The channel operations. -/
inductive Label where
  /-- `AcquireConn` calls `acquireConn`, at first or after a stale connection. -/
  | call
  /-- The first select receives a connection. -/
  | take (i : ℕ)
  /-- The first select takes the default case. -/
  | ask (i : ℕ)
  /-- The second select receives a connection at once. -/
  | takeNew (i : ℕ)
  /-- The second select receives the error at once. -/
  | fail (i : ℕ)
  /-- The second select blocks. -/
  | block (i : ℕ)
  /-- The dial of a call succeeds. -/
  | dialed (i : ℕ)
  /-- The dial of a call fails. -/
  | dialFailed (i : ℕ)
  /-- `cleanIdleConns` receives a connection. -/
  | clean
  /-- `cleanIdleConns` closes a stale connection. -/
  | closeStale (co : ℕ)
  /-- `cleanIdleConns` puts a connection back. -/
  | putBack (co : ℕ)
  /-- `ReleaseConn`. -/
  | release (co : ℕ)
  /-- A connection is closed or upgraded and not released. -/
  | drop (co : ℕ)

/-! ## The steps -/

/-- `releaseConn`. -/
inductive Released (capacity : ℕ) (s : State) (co : ℕ) : State → Prop where
  | handed (i : ℕ) : s.calls[i]? = some .blocked →
      Released capacity s co { s with calls := s.calls.set i .served, held := co :: s.held }
  | queued : .blocked ∉ s.calls → s.idle.length < capacity →
      Released capacity s co { s with idle := s.idle ++ [co] }
  | closed : .blocked ∉ s.calls → capacity ≤ s.idle.length → Released capacity s co s

/-- The call when its dial has failed: one that has returned does not see the error. -/
def Call.error : Call → Call
  | .asked _ => .asked true
  | .blocked => .failed
  | c => c

/-- One step. -/
def step (capacity : ℕ) (s : State) (l : Label) (s' : State) : Prop :=
  match l with
  | .call => s' = { s with calls := s.calls ++ [.start] }
  | .take i =>
      s.calls[i]? = some .start ∧ ∃ co rest, s.idle = co :: rest ∧
        s' = { s with calls := s.calls.set i .served, idle := rest, held := co :: s.held }
  | .ask i =>
      s.calls[i]? = some .start ∧ s.idle = [] ∧
        s' = { s with calls := s.calls.set i (.asked false), dials := i :: s.dials }
  | .takeNew i =>
      (∃ err, s.calls[i]? = some (.asked err)) ∧ ∃ co rest, s.idle = co :: rest ∧
        s' = { s with calls := s.calls.set i .served, idle := rest, held := co :: s.held }
  | .fail i =>
      s.calls[i]? = some (.asked true) ∧ s' = { s with calls := s.calls.set i .failed }
  | .block i =>
      s.calls[i]? = some (.asked false) ∧ s.idle = [] ∧
        s' = { s with calls := s.calls.set i .blocked }
  | .dialed i =>
      i ∈ s.dials ∧
        Released capacity { s with dials := s.dials.erase i, next := s.next + 1 } s.next s'
  | .dialFailed i =>
      i ∈ s.dials ∧ ∃ c, s.calls[i]? = some c ∧
        s' = { s with calls := s.calls.set i c.error, dials := s.dials.erase i }
  | .clean =>
      ∃ co rest, s.idle = co :: rest ∧
        s' = { s with idle := rest, cleaning := co :: s.cleaning }
  | .closeStale co => co ∈ s.cleaning ∧ s' = { s with cleaning := s.cleaning.erase co }
  | .putBack co =>
      co ∈ s.cleaning ∧ Released capacity { s with cleaning := s.cleaning.erase co } co s'
  | .release co =>
      co ∈ s.held ∧ Released capacity { s with held := s.held.erase co } co s'
  | .drop co => co ∈ s.held ∧ s' = { s with held := s.held.erase co }

/-- `newConnPool`. -/
def empty : State := ⟨[], [], [], [], [], 0⟩

/-- All interleavings of the calls on a pool. -/
def pool (capacity : ℕ) : System State Label where
  init := fun s => s = empty
  step := step capacity

/-! ## Every connection is in one place -/

/-- The connections that somebody has. -/
def State.conns (s : State) : Multiset ℕ :=
  s.idle + s.cleaning + s.held

/-- A connection is in one place, and has been dialled. -/
structure Exclusive (s : State) : Prop where
  nodup : s.conns.Nodup
  dialed : ∀ co ∈ s.conns, co < s.next

variable {capacity : ℕ} {s s' : State} {l : Label}

variable {co : ℕ}

open State

theorem count_conns (s : State) (x : ℕ) :
    s.conns.count x = s.idle.count x + s.cleaning.count x + s.held.count x := by
  simp [conns, Nat.add_assoc]

/-- A connection that is taken away and released is in one place again, or nowhere. -/
theorem Released.count_le (h : Released capacity s co s') (x : ℕ) :
    s'.conns.count x ≤ s.conns.count x + [co].count x ∧ s'.next = s.next := by
  cases h with
  | handed i _ =>
    refine ⟨?_, rfl⟩
    simp only [count_conns, count_cons, count_nil]
    omega
  | queued _ _ =>
    refine ⟨?_, rfl⟩
    simp only [count_conns, count_append]
    omega
  | closed _ _ => exact ⟨Nat.le_add_right _ _, rfl⟩

theorem count_erase_add {cos : List ℕ} (h : co ∈ cos) (x : ℕ) :
    (cos.erase co).count x + [co].count x = cos.count x := by
  rw [(perm_cons_erase h).count_eq, count_cons, count_cons, count_nil, Nat.zero_add]

/-- A step puts no connection in a place more, but for the one it has dialled. -/
theorem count_step (h : step capacity s l s') (x : ℕ) :
    s'.conns.count x ≤ s.conns.count x ∧ s'.next = s.next ∨
      s'.conns.count x ≤ s.conns.count x + [s.next].count x ∧ s'.next = s.next + 1 := by
  match l with
  | .call => obtain rfl := h; exact .inl ⟨le_rfl, rfl⟩
  | .fail _ => obtain ⟨_, rfl⟩ := h; exact .inl ⟨le_rfl, rfl⟩
  | .ask _ | .block _ => obtain ⟨_, _, rfl⟩ := h; exact .inl ⟨le_rfl, rfl⟩
  | .dialFailed _ => obtain ⟨_, _, _, rfl⟩ := h; exact .inl ⟨le_rfl, rfl⟩
  | .take _ | .takeNew _ =>
    obtain ⟨_, co, rest, hidle, rfl⟩ := h
    refine .inl ⟨?_, rfl⟩
    simp only [count_conns, hidle, count_cons]
    omega
  | .clean =>
    obtain ⟨co, rest, hidle, rfl⟩ := h
    refine .inl ⟨?_, rfl⟩
    simp only [count_conns, hidle, count_cons]
    omega
  | .dialed _ => exact .inr (h.2.count_le x)
  | .closeStale co | .drop co =>
    obtain ⟨hco, rfl⟩ := h
    have := count_erase_add hco x
    refine .inl ⟨?_, rfl⟩
    simp only [count_conns]
    omega
  | .putBack co | .release co =>
    obtain ⟨hle, hnext⟩ := h.2.count_le x
    have := count_erase_add h.1 x
    refine .inl ⟨?_, hnext⟩
    simp only [count_conns] at hle ⊢
    omega

/-- **No connection is in two places**: nobody receives one that somebody else uses. -/
theorem exclusive (h : (pool capacity).Reachable s) : Exclusive s := by
  suffices hcount : ∀ x, s.conns.count x ≤ if x < s.next then 1 else 0 by
    refine ⟨Multiset.nodup_iff_count_le_one.mpr fun x => (hcount x).trans (by split <;> omega), ?_⟩
    intro co hco
    by_contra hlt
    have := hcount co
    rw [if_neg hlt] at this
    exact absurd (Multiset.count_pos.mpr hco) (by omega)
  refine System.invariant (fun s => ∀ x, s.conns.count x ≤ if x < s.next then 1 else 0) ?_ ?_ h
  · intro s hs x
    obtain rfl : s = empty := hs
    exact Nat.zero_le _
  · intro s l s' hs hst x
    obtain ⟨hle, hnext⟩ | ⟨hle, hnext⟩ := count_step hst x
    · rw [hnext]
      exact hle.trans (hs x)
    · refine hle.trans ((Nat.add_le_add_right (hs x) _).trans ?_)
      rw [hnext, count_singleton]
      grind

theorem exclusive_dialed : Exclusive ⟨[.asked false], [], [0], [], [], 1⟩ := by
  have hasked : (pool 1).Reachable ⟨[.asked false], [0], [], [], [], 0⟩ :=
    .step (.ask 0) (.step .call (.init rfl) (show _ = _ from rfl)) ⟨rfl, rfl, rfl⟩
  exact exclusive (.step (.dialed 0) hasked ⟨by decide, .queued (by decide) (by decide)⟩)

/-! ## The calls that wait -/

/-- The call counts on a connection to come. -/
def Call.waits : Call → Bool
  | .asked false | .blocked => true
  | _ => false

/-- The calls that count on a connection to come. -/
def State.waiting (s : State) : ℕ :=
  s.calls.countP Call.waits

/-- The connections there are or that may come. -/
def State.supply (s : State) : ℕ :=
  s.dials.length + s.idle.length

/-- The calls that are blocked in their second select. -/
def State.blocked (s : State) : ℕ :=
  s.calls.count .blocked

/-- The step uses up a connection, or a dial, without a waiting call getting it: a call that
    did not wait for it receives it, `cleanIdleConns` does, the channel is full, or the dial
    fails for a call that does not wait any more. -/
def Spends (capacity : ℕ) (s : State) : Label → Prop
  | .take _ | .clean => True
  | .takeNew i => s.calls[i]? = some (.asked true)
  | .dialed _ => .blocked ∉ s.calls ∧ capacity ≤ s.idle.length
  | .dialFailed i => ∀ c, s.calls[i]? = some c → c.waits = false
  | _ => False

/-- The condition: such a step is taken only when there is more than the waiting calls
    need. -/
def Covered (capacity : ℕ) (s : State) (l : Label) : Prop :=
  Spends capacity s l → s.waiting < s.supply

theorem waiting_set {i : ℕ} {c : Call} (h : s.calls[i]? = some c) (c' : Call) :
    (s.calls.set i c').countP Call.waits + c.waits.toNat = s.waiting + c'.waits.toNat := by
  obtain ⟨hlt, hget⟩ := List.getElem?_eq_some_iff.mp h
  have hpos : c.waits.toNat ≤ s.waiting := by
    cases hc : c.waits with
    | false => exact zero_le _
    | true => exact countP_pos_iff.mpr ⟨c, hget ▸ getElem_mem hlt, hc⟩
  rw [countP_set hlt, hget, ← waiting]
  cases hc : c.waits <;> cases hc' : c'.waits <;> simp_all

/-- A connection that is released reaches a waiting call, or adds to the supply, or is closed
    because the channel is full. -/
theorem Released.balance (h : Released capacity s co s') :
    s'.waiting + 1 = s.waiting ∧ s'.supply = s.supply ∧ .blocked ∈ s.calls ∨
    s'.waiting = s.waiting ∧ s'.supply = s.supply + 1 ∧ s.idle.length < capacity ∨
    s'.waiting = s.waiting ∧ s'.supply = s.supply ∧
      .blocked ∉ s.calls ∧ capacity ≤ s.idle.length := by
  cases h with
  | handed i hi => exact .inl ⟨waiting_set hi .served, rfl, List.mem_of_getElem? hi⟩
  | queued _ hroom =>
    refine .inr (.inl ⟨rfl, ?_, hroom⟩)
    simp only [supply, length_append, length_singleton]
    omega
  | closed hnone hfull => exact .inr (.inr ⟨rfl, rfl, hnone, hfull⟩)

theorem Call.waits_error (c : Call) : c.error.waits = false := by
  cases c <;> rfl

/-- A receive of the connection at the head of the channel. -/
theorem supply_receive {rest : List ℕ} (h : s.idle = co :: rest) :
    s.supply = s.dials.length + rest.length + 1 := by
  rw [supply, h, length_cons]
  omega

/-- The end of a dial. -/
theorem supply_dialed {i : ℕ} (h : i ∈ s.dials) :
    s.supply = (s.dials.erase i).length + s.idle.length + 1 := by
  have hpos := length_pos_of_mem h
  rw [supply, length_erase_of_mem h]
  omega

open Bool

/-- **What a step does to the balance**: it gets worse by one in the steps that use up a
    connection, and in no other. -/
theorem balance (h : step capacity s l s') :
    (Spends capacity s l → s'.waiting + s.supply = s.waiting + s'.supply + 1) ∧
    (¬ Spends capacity s l → s'.waiting + s.supply ≤ s.waiting + s'.supply) := by
  match l with
  | .call =>
    obtain rfl := h
    refine ⟨fun hspends => hspends.elim, fun _ => le_of_eq ?_⟩
    show (s.calls ++ [Call.start]).countP Call.waits + s.supply = s.waiting + s.supply
    rw [countP_append]
    rfl
  | .take i =>
    obtain ⟨hi, co, rest, hidle, rfl⟩ := h
    have hwaiting := waiting_set hi .served
    have hsupply := supply_receive hidle
    refine ⟨fun _ => ?_, absurd trivial⟩
    simp only [waiting, supply, Call.waits] at *
    omega
  | .ask i =>
    obtain ⟨hi, -, rfl⟩ := h
    have hwaiting := waiting_set hi (.asked false)
    refine ⟨fun hspends => hspends.elim, fun _ => ?_⟩
    simp only [waiting, supply, Call.waits, length_cons, toNat_true, toNat_false] at *
    omega
  | .takeNew i =>
    obtain ⟨⟨err, hi⟩, co, rest, hidle, rfl⟩ := h
    have hwaiting := waiting_set hi .served
    have hsupply := supply_receive hidle
    -- The call waited for this connection unless its own dial had failed.
    cases err with
    | false =>
      refine ⟨fun hspends => absurd (hi.symm.trans hspends) (by simp), fun _ => ?_⟩
      simp only [waiting, supply, Call.waits, toNat_true, toNat_false] at *
      omega
    | true =>
      refine ⟨fun _ => ?_, absurd hi⟩
      simp only [waiting, supply, Call.waits] at *
      omega
  | .fail i =>
    obtain ⟨hi, rfl⟩ := h
    exact ⟨fun hspends => hspends.elim, fun _ => Nat.add_le_add_right (waiting_set hi .failed).le _⟩
  | .block i =>
    obtain ⟨hi, -, rfl⟩ := h
    have hwaiting := add_right_cancel (waiting_set hi .blocked)
    exact ⟨fun hspends => hspends.elim, fun _ => Nat.add_le_add_right hwaiting.le _⟩
  | .dialed i =>
    obtain ⟨hi, hreleased⟩ := h
    have hsupply := supply_dialed hi
    rcases hreleased.balance with ⟨hwaiting, hsupply', hblocked⟩ |
      ⟨hwaiting, hsupply', hroom⟩ | ⟨hwaiting, hsupply', hnone, hfull⟩
    · refine ⟨fun hspends => absurd hblocked hspends.1, fun _ => ?_⟩
      simp only [waiting, supply] at *
      omega
    · refine ⟨fun hspends => absurd hroom (not_lt.mpr hspends.2), fun _ => ?_⟩
      simp only [waiting, supply] at *
      omega
    · refine ⟨fun _ => ?_, fun hnot => absurd ⟨hnone, hfull⟩ hnot⟩
      simp only [waiting, supply] at *
      omega
  | .dialFailed i =>
    obtain ⟨hi, c, hc, rfl⟩ := h
    have hwaiting := waiting_set hc c.error
    have hsupply := supply_dialed hi
    rw [c.waits_error] at hwaiting
    cases hwaits : c.waits with
    | false =>
      refine ⟨fun _ => ?_, fun hnot => absurd (fun c' hc' => ?_) hnot⟩
      · simp only [waiting, supply, hwaits] at *
        omega
      · rwa [← Option.some.inj (hc.symm.trans hc')]
    | true =>
      refine ⟨fun hspends => absurd (hspends c hc) (by simp [hwaits]), fun _ => ?_⟩
      simp only [waiting, supply, hwaits, toNat_true, toNat_false] at *
      omega
  | .clean =>
    obtain ⟨co, rest, hidle, rfl⟩ := h
    have hsupply := supply_receive hidle
    refine ⟨fun _ => ?_, absurd trivial⟩
    simp only [waiting, supply] at *
    omega
  | .closeStale _ | .drop _ =>
    obtain ⟨_, rfl⟩ := h
    exact ⟨fun hspends => hspends.elim, fun _ => le_rfl⟩
  | .putBack _ | .release _ =>
    refine ⟨fun hspends => hspends.elim, fun _ => ?_⟩
    have hbalance := h.2.balance
    simp only [waiting, supply] at *
    omega

/-- What every run keeps when its steps meet the condition. -/
theorem waiting_le_supply (h : ((pool capacity).restrict (Covered capacity)).Reachable s) :
    s.waiting ≤ s.supply := by
  refine System.invariant (fun s => s.waiting ≤ s.supply) ?_ ?_ h
  · intro s hs
    obtain rfl : s = empty := hs
    exact le_rfl
  · intro s l s' hle ⟨hcovered, hst⟩
    obtain ⟨hspent, hkept⟩ := balance hst
    by_cases hspends : Spends capacity s l
    · have hlt := hcovered hspends
      have heq := hspent hspends
      omega
    · have hle' := hkept hspends
      omega

/-! ## Calls that are left waiting -/

/-- The calls that are about to enter their second select. -/
def State.entering (s : State) : ℕ :=
  s.calls.count (.asked false)

theorem waiting_eq (s : State) : s.waiting = s.blocked + s.entering := by
  unfold waiting blocked entering
  induction s.calls with
  | nil => rfl
  | cons c calls ih =>
    rw [countP_cons, count_cons, count_cons, ih]
    cases c with
    | asked err => cases err <;> simp [Call.waits, add_assoc]
    | blocked => simp [Call.waits, add_right_comm]
    | _ => simp [Call.waits]

theorem entering_set {i : ℕ} {c : Call} (h : s.calls[i]? = some (.asked false))
    (hc : c ≠ .asked false) : (s.calls.set i c).count (.asked false) + 1 = s.entering := by
  obtain ⟨hlt, hget⟩ := List.getElem?_eq_some_iff.mp h
  have hpos : 0 < s.entering := List.count_pos_iff.mpr (List.mem_of_getElem? h)
  rw [List.count_set hlt, hget, ← entering]
  simp only [beq_self_eq_true, if_true, beq_eq_false_iff_ne.mpr hc, false_eq_true, if_false]
  omega

/-- When more calls wait than connections may come, they enter their selects one after the
    other and some of them stay there. -/
theorem stranded_of_lt (h : s.supply < s.waiting) :
    ∃ ls t, (pool capacity).Run s ls t ∧ t.dials.length + t.idle.length < t.blocked := by
  induction hn : s.entering generalizing s with
  | zero =>
    rw [waiting_eq, hn] at h
    exact ⟨[], s, .nil s, h⟩
  | succ n ih =>
    have hmem : Call.asked false ∈ s.calls := by
      rw [← count_pos_iff]
      exact (succ_pos n).trans_eq hn.symm
    obtain ⟨i, hi⟩ := List.getElem?_of_mem hmem
    match hidle : s.idle with
    | [] =>
      -- The channel is empty, so the call blocks.
      have hst : (pool capacity).step s (.block i) { s with calls := s.calls.set i .blocked } :=
        ⟨hi, hidle, rfl⟩
      have hwaiting : (s.calls.set i .blocked).countP Call.waits = s.waiting :=
        add_right_cancel (waiting_set hi .blocked)
      have hentering := entering_set hi (c := .blocked) nofun
      obtain ⟨ls, t, hrun, ht⟩ := ih (s := { s with calls := s.calls.set i .blocked })
        (by simp only [waiting, supply] at *; omega)
        (by simp only [entering] at *; omega)
      exact ⟨_, t, .cons _ hst hrun, ht⟩
    | co :: rest =>
      -- The call receives a connection, and both sides are one less.
      have hst : (pool capacity).step s (.takeNew i)
          { s with calls := s.calls.set i .served, idle := rest, held := co :: s.held } :=
        ⟨⟨false, hi⟩, co, rest, hidle, rfl⟩
      have hwaiting : (s.calls.set i .served).countP Call.waits + 1 = s.waiting :=
        waiting_set hi .served
      have hentering := entering_set hi (c := .served) nofun
      have hsupply := supply_receive hidle
      obtain ⟨ls, t, hrun, ht⟩ := ih
        (s := { s with calls := s.calls.set i .served, idle := rest, held := co :: s.held })
        (by simp only [waiting, supply] at *; omega)
        (by simp only [entering] at *; omega)
      exact ⟨_, t, .cons _ hst hrun, ht⟩

/-- **No call is stranded** in a run whose steps meet the condition: there are no more blocked
    calls than dials in flight and idle connections.  A step that does not meet it leaves
    calls that may block for nothing. -/
theorem never_stranded (capacity : ℕ) :
    (∀ s, ((pool capacity).restrict (Covered capacity)).Reachable s →
      s.calls.count .blocked ≤ s.dials.length + s.idle.length) ∧
    ∀ s l s', ((pool capacity).restrict (Covered capacity)).Reachable s →
      (pool capacity).step s l s' → ¬ Covered capacity s l →
      ∃ ls t, (pool capacity).Run s' ls t ∧
        t.dials.length + t.idle.length < t.calls.count .blocked := by
  constructor
  · intro s hs
    have hle := waiting_le_supply hs
    rw [waiting_eq] at hle
    exact (le_add_right _ _).trans hle
  · intro s l s' hs hst hnot
    obtain ⟨hspends, hlt⟩ := Classical.not_imp.mp hnot
    have heq := (balance hst).1 hspends
    exact stranded_of_lt (by omega)

/-- Two calls are blocked.  The connection of one dial goes to the call of the other, whose own
    dial then fails: its error reaches nobody, and the other call waits for nothing. -/
theorem error_of_served_call : ∃ s, (pool 1).Reachable s ∧
    s.calls = [.served, .blocked] ∧ s.dials = [] ∧ s.idle = [] ∧
    ¬ s.calls.count .blocked ≤ s.dials.length + s.idle.length := by
  have hcalls : (pool 1).Reachable ⟨[.start, .start], [], [], [], [], 0⟩ :=
    .step .call (.step .call (.init rfl) (show _ = _ from rfl)) (show _ = _ from rfl)
  have hasked : (pool 1).Reachable ⟨[.asked false, .asked false], [1, 0], [], [], [], 0⟩ :=
    .step (.ask 1) (.step (.ask 0) hcalls ⟨rfl, rfl, rfl⟩) ⟨rfl, rfl, rfl⟩
  have hblocked : (pool 1).Reachable ⟨[.blocked, .blocked], [1, 0], [], [], [], 0⟩ :=
    .step (.block 1) (.step (.block 0) hasked ⟨rfl, rfl, rfl⟩) ⟨rfl, rfl, rfl⟩
  have hserved : (pool 1).Reachable ⟨[.served, .blocked], [0], [], [], [0], 1⟩ :=
    .step (.dialed 1) hblocked ⟨by decide, .handed 0 rfl⟩
  exact ⟨_, .step (.dialFailed 0) hserved ⟨by decide, .served, rfl, rfl⟩, rfl, rfl, rfl, by decide⟩

end Ingress.ConnPool
