import Ingress.Framework.System
import Ingress.Middleware.RateLimiter

/-! # Concurrent Calls of the Rate Limiter

    `Allow` of the in-memory limiter, called for one source by any number of goroutines at one
    instant.  A call takes the bucket of the source or makes one, puts it into the map, reserves
    a token and gives it back when it would have to wait too long; these are its atomic steps.

    What a reservation gives back when it is cancelled depends on the ones that came later, so a
    step says it: at most the token.

    * `allowCalls`: the interleavings.
    * `Charged`: a bucket lets at most the burst through at once.
    * `Alone`: a bucket is made while no other one is on its way to the map.
    * `burst_of_alone`: when the burst bounds the calls that need not wait. -/

open TokenBucket LTS Function Finset

namespace Ingress.RateLimiter

/-! ## The code -/

/-- Where a call of `Allow` stands, with its bucket and the delay of its reservation. -/
inductive Pc where
  | get
  | set (bucket : ℕ)
  | reserve (bucket : ℕ)
  | cancel (bucket : ℕ) (delay : ℚ)
  | returned (bucket : ℕ) (delay : ℚ)
  deriving DecidableEq

/-- The bucket the map has for the source, how many buckets are made, all buckets, and the calls.
    The buckets that are still to be made are full. -/
structure Calls (N : ℕ) where
  stored : Option ℕ
  made : ℕ
  heap : ℕ → Bucket ℚ
  pc : Fin N → Pc

/-- The steps of a call; `back` is what the reservation gives back. -/
inductive Act (N : ℕ) where
  | get (i : Fin N)
  | set (i : Fin N)
  | reserve (i : Fin N)
  | finish (i : Fin N) (back : ℚ)

variable (l : Limiter) {N : ℕ} (now : ℚ)

/-- The bucket that `rate.NewLimiter` makes. -/
def full : Bucket ℚ := ⟨now, l.burst⟩

/-- `buckets.Get`, or a new bucket. -/
def Calls.get (s : Calls N) (i : Fin N) : Calls N :=
  match s.stored with
  | some b => { s with pc := Function.update s.pc i (.set b) }
  | none => { s with made := s.made + 1, pc := Function.update s.pc i (.set s.made) }

def Calls.set (s : Calls N) (i : Fin N) (b : ℕ) : Calls N :=
  { s with stored := some b, pc := Function.update s.pc i (.reserve b) }

def Calls.reserve (s : Calls N) (i : Fin N) (b : ℕ) : Calls N :=
  let res := (s.heap b).reserve l.toParams now
  { s with
    heap := Function.update s.heap b res
    pc := Function.update s.pc i (.cancel b (res.wait l.toParams)) }

/-- `res.Cancel` when the delay is too long, and the return. -/
def Calls.finish (s : Calls N) (i : Fin N) (b : ℕ) (delay back : ℚ) : Calls N :=
  { s with
    heap := if l.maxDelay < delay then
        Function.update s.heap b ⟨now, (s.heap b).level l.toParams now + back⟩
      else s.heap
    pc := Function.update s.pc i (.returned b delay) }

/-- One step of one call. -/
def Calls.step (s : Calls N) : Act N → Calls N → Prop
  | .get i, s' => s.pc i = .get ∧ s' = s.get i
  | .set i, s' => ∃ b, s.pc i = .set b ∧ s' = s.set i b
  | .reserve i, s' => ∃ b, s.pc i = .reserve b ∧ s' = s.reserve l now i b
  | .finish i back, s' => 0 ≤ back ∧ back ≤ 1 ∧
      ∃ b delay, s.pc i = .cancel b delay ∧ s' = s.finish l now i b delay back

/-- No call has started, and the map has no bucket for the source. -/
def Calls.start (N : ℕ) : Calls N :=
  ⟨none, 0, fun _ => full l now, fun _ => .get⟩

open Calls

/-- The interleavings of `N` calls. -/
def allowCalls (N : ℕ) : System (Calls N) (Act N) where
  init := fun s => s = start l now N
  step := fun s a s' => s.step l now a s'

/-! ## Counting calls -/

/-- How many calls are at a place. -/
def tally (at_ : Pc → Bool) (pc : Fin N → Pc) : ℕ :=
  ∑ i, (at_ (pc i)).toNat

/-- The call has returned and need not wait. -/
def Pc.isZero : Pc → Bool
  | .returned _ delay => delay = 0
  | _ => false

/-- The call has a token of the bucket and need not wait. -/
def Pc.zeroOn (b : ℕ) : Pc → Bool
  | .cancel b' delay => b' = b ∧ delay = 0
  | .returned b' delay => b' = b ∧ delay = 0
  | _ => false

/-- The call has a token of the bucket that it may give back. -/
def Pc.pendingOn (b : ℕ) : Pc → Bool
  | .cancel b' delay => b' = b ∧ delay ≠ 0
  | _ => false

variable {l now}

theorem tally_update (at_ : Pc → Bool) (pc : Fin N → Pc) (i : Fin N) (x : Pc) :
    tally at_ (update pc i x) + (at_ (pc i)).toNat =
      tally at_ pc + (at_ x).toNat := by
  have hcomp : (fun j => (at_ (update pc i x j)).toNat) =
      update (fun j => (at_ (pc j)).toNat) i (at_ x).toNat := by
    funext j
    exact apply_update (fun _ y => (at_ y).toNat) pc i x j
  have hsplit := sum_update_of_mem (mem_univ i) (fun j => (at_ (pc j)).toNat)
    (at_ (pc i)).toNat
  rw [update_eq_self i fun j => (at_ (pc j)).toNat] at hsplit
  unfold tally
  rw [hcomp, sum_update_of_mem (mem_univ i), hsplit]
  omega

theorem tally_mono {at_ at' : Pc → Bool} {pc : Fin N → Pc}
    (h : ∀ i, at_ (pc i) = true → at' (pc i) = true) : tally at_ pc ≤ tally at' pc := by
  refine sum_le_sum fun i _ => ?_
  have hi := h i
  revert hi
  cases at_ (pc i) <;> cases at' (pc i) <;> decide

theorem tally_le (at_ : Pc → Bool) (pc : Fin N → Pc) : tally at_ pc ≤ N := by
  calc tally at_ pc ≤ ∑ _i : Fin N, 1 := sum_le_sum fun i _ => Bool.toNat_le (at_ (pc i))
    _ = N := by simp

/-! ## What one bucket lets through -/

/-- With `ready` calls that need not wait and `pending` ones that may give their token back: all
    tokens that are gone went to the former, or these are as many as the burst and there will be
    no token. -/
def Charged (l : Limiter) (tokens : ℚ) (ready pending : ℕ) : Prop :=
  (ready : ℚ) ≤ l.burst ∧
    (tokens = l.burst - ready ∧ pending = 0 ∨ (ready : ℚ) = l.burst ∧ tokens + pending ≤ 0)

theorem Charged.le_burst {toks : ℚ} {ready pend : ℕ} (h : Charged l toks ready pend) :
    toks ≤ l.burst := by
  obtain ⟨hle, ⟨rfl, -⟩ | ⟨hzero, htokens⟩⟩ := h
  · linarith
  · linarith

/-- A reservation. -/
theorem Charged.reserve {n : ℕ} (hn : l.burst = n + 1) {tokens : ℚ} {ready pend : ℕ}
    (h : Charged l tokens ready pend) :
    if (⟨now, tokens - 1⟩ : Bucket ℚ).wait l.toParams = 0 then Charged l (tokens - 1) (ready + 1) pend
    else Charged l (tokens - 1) ready (pend + 1) := by
  have hwait : (⟨now, tokens - 1⟩ : Bucket ℚ).wait l.toParams = 0 ↔ 1 ≤ tokens := by
    unfold Bucket.wait
    dsimp only
    split
    · next hneg =>
      have hpos : 0 < if 0 < l.rate then -(tokens - 1) / l.rate else l.maxDelay + 1 := by
        split
        · next hrate => exact div_pos (by linarith) hrate
        · exact add_pos_of_nonneg_of_pos l.maxDelay_nonneg one_pos
      exact ⟨fun h => absurd h hpos.ne', fun h => absurd hneg (by linarith)⟩
    · next hneg => exact ⟨fun _ => by linarith, fun _ => rfl⟩
  obtain ⟨hle, ⟨htokens, hnone⟩ | ⟨hzero, htokens⟩⟩ := h
  · rcases hle.lt_or_eq with hlt | heq
    · -- the burst is a whole number, so there is a whole token
      have hwhole : ready + 1 ≤ n + 1 := by
        rw [hn] at hlt
        exact_mod_cast hlt
      have hcast : ((ready : ℚ) + 1) ≤ l.burst := by
        rw [hn]
        exact_mod_cast hwhole
      rw [if_pos (hwait.mpr (by linarith))]
      refine ⟨by push_cast; exact hcast, .inl ⟨?_, hnone⟩⟩
      rw [htokens]
      push_cast
      ring
    · rw [if_neg (fun h => absurd (hwait.mp h) (by linarith))]
      refine ⟨hle, .inr ⟨heq, ?_⟩⟩
      rw [hnone]
      push_cast
      linarith
  · rw [if_neg (fun h => absurd (hwait.mp h) (by linarith))]
    refine ⟨hle, .inr ⟨hzero, ?_⟩⟩
    push_cast
    linarith

/-- A reservation that is done with, whatever it gives back. -/
theorem Charged.finish {toks back : ℚ} {ready pending : ℕ} (h : Charged l toks ready (pending + 1))
    (hback : back ≤ 1) : Charged l (toks + back) ready pending := by
  obtain ⟨hle, ⟨-, hnone⟩ | ⟨hzero, htokens⟩⟩ := h
  · omega
  · push_cast at htokens
    exact ⟨hle, .inr ⟨hzero, by linarith⟩⟩

/-! ## Every bucket of a run -/

/-- The bucket and the calls that took a token of it. -/
def Calls.ChargedAt (l : Limiter) (now : ℚ) (s : Calls N) (b : ℕ) : Prop :=
  (s.heap b).last = now ∧
    Charged l (s.heap b).tokens (tally (Pc.zeroOn b) s.pc) (tally (Pc.pendingOn b) s.pc)

open Pc

/-- A step of a call that neither holds a token before nor after it. -/
theorem Calls.ChargedAt.move {s s' : Calls N} {b : ℕ} (h : s.ChargedAt l now b) {i : Fin N}
    {x y : Pc} (hi : s.pc i = y) (hheap : s'.heap b = s.heap b) (hpc : s'.pc = update s.pc i x)
    (hzero : y.zeroOn b = x.zeroOn b) (hpend : y.pendingOn b = x.pendingOn b) :
    s'.ChargedAt l now b := by
  have hzeros := tally_update (zeroOn b) s.pc i x
  have hpendings := tally_update (pendingOn b) s.pc i x
  rw [hi, hzero] at hzeros
  rw [hi, hpend] at hpendings
  unfold Calls.ChargedAt
  rw [hheap, hpc, Nat.add_right_cancel hzeros, Nat.add_right_cancel hpendings]
  exact h

variable {s : Calls N}

theorem Calls.ChargedAt.level {b : ℕ} (h : s.ChargedAt l now b) :
    (s.heap b).level l.toParams now = (s.heap b).tokens := by
  calc (s.heap b).level l.toParams now = (s.heap b).level l.toParams (s.heap b).last := by rw [h.1]
    _ = (s.heap b).tokens := level_self h.2.le_burst

theorem chargedAt_step {n : ℕ} (hn : l.burst = n + 1) {s s' : Calls N} {a : Act N}
    (hs : ∀ b, s.ChargedAt l now b) (hstep : s.step l now a s') (b : ℕ) : s'.ChargedAt l now b := by
  match a with
  | .get i =>
    obtain ⟨hpc, rfl⟩ := hstep
    unfold Calls.get
    split <;> exact (hs b).move hpc rfl rfl rfl rfl
  | .set i =>
    obtain ⟨b', hpc, rfl⟩ := hstep
    exact (hs b).move hpc rfl rfl rfl rfl
  | .reserve i =>
    obtain ⟨b', hpc, rfl⟩ := hstep
    by_cases hb : b' = b
    · subst hb
      have hlevel := (hs b').level
      have hres : (s.heap b').reserve l.toParams now = ⟨now, (s.heap b').tokens - 1⟩ := by
        rw [Bucket.reserve, hlevel]
      have hcharged := @Charged.reserve l now n hn _ _ _ (hs b').2
      have hzeros := tally_update (zeroOn b') s.pc i
        (.cancel b' ((⟨now, (s.heap b').tokens - 1⟩ : Bucket ℚ).wait l.toParams))
      have hpendings := tally_update (pendingOn b') s.pc i
        (.cancel b' ((⟨now, (s.heap b').tokens - 1⟩ : Bucket ℚ).wait l.toParams))
      unfold Calls.ChargedAt Calls.reserve
      dsimp only
      rw [hres, update_self]
      refine ⟨rfl, ?_⟩
      rw [hpc] at hzeros hpendings
      split at hcharged
      · next hwait =>
        simp [zeroOn, pendingOn, hwait] at hzeros hpendings
        rw [hwait, hzeros, hpendings]
        exact hcharged
      · next hwait =>
        simp [zeroOn, pendingOn, hwait] at hzeros hpendings
        rw [hzeros, hpendings]
        exact hcharged
    · exact (hs b).move hpc (update_of_ne (.symm hb) _ _) rfl (by simp [zeroOn, hb])
        (by simp [pendingOn, hb])
  | .finish i back =>
    obtain ⟨-, hback, b', delay, hpc, rfl⟩ := hstep
    by_cases hb : b' = b
    · subst hb
      by_cases hzero : delay = 0
      · -- nothing is given back
        have hlong : ¬ l.maxDelay < delay := by
          rw [hzero]
          exact not_lt.mpr l.maxDelay_nonneg
        refine (hs b').move hpc ?_ rfl rfl (by simp [pendingOn, hzero])
        show (if l.maxDelay < delay then _ else s.heap) b' = s.heap b'
        rw [if_neg hlong]
      · have hzeros := tally_update (zeroOn b') s.pc i (.returned b' delay)
        have hpendings := tally_update (pendingOn b') s.pc i (.returned b' delay)
        rw [hpc] at hzeros hpendings
        simp [zeroOn, pendingOn, hzero] at hzeros hpendings
        have hcharged := (hs b').2
        rw [← hpendings] at hcharged
        have hlevel := (hs b').level
        unfold Calls.ChargedAt finish
        dsimp only
        rw [hzeros]
        split
        · rw [update_self, hlevel]
          exact ⟨rfl, hcharged.finish hback⟩
        · have hkept := hcharged.finish (zero_le_one' ℚ)
          rw [add_zero] at hkept
          exact ⟨(hs b').1, hkept⟩
    · refine (hs b).move hpc ?_ rfl (by simp [zeroOn, hb]) (by simp [pendingOn, hb])
      show (if l.maxDelay < delay then _ else s.heap) b = s.heap b
      split
      · exact update_of_ne (.symm hb) _ _
      · rfl

theorem chargedAt_start (hburst : 0 ≤ l.burst) (b : ℕ) : (start l now N).ChargedAt l now b := by
  refine ⟨rfl, ?_⟩
  simp [Charged, start, tally, zeroOn, pendingOn, full, hburst]

theorem chargedAt_of_reachable {n : ℕ} (hn : l.burst = n + 1)
    (h : (allowCalls l now N).Reachable s) (b : ℕ) : s.ChargedAt l now b := by
  refine System.invariant (fun s => ∀ b, s.ChargedAt l now b) ?_ ?_ h b
  · intro s hs b
    rw [show s = start l now N from hs]
    exact chargedAt_start l.burst_nonneg b
  · intro s a s' hs hstep b
    exact chargedAt_step hn hs hstep b

/-! ## Buckets that are made one at a time -/

/-- The bucket a call has. -/
def Pc.bucket : Pc → Option ℕ
  | .get => none
  | .set b => some b
  | .reserve b => some b
  | .cancel b _ => some b
  | .returned b _ => some b

/-- A call finds no bucket only while no other call is about to put one into the map. -/
def Alone (s : Calls N) : Act N → Prop
  | .get _ => s.stored = none → ∀ j b, s.pc j ≠ .set b
  | _ => True

/-- All calls share the first bucket, which is in the map or on its way. -/
structure OneBucket (s : Calls N) : Prop where
  bucket : ∀ i b, (s.pc i).bucket = some b → b = 0
  stored : s.stored = some 0 ∨ s.stored = none ∧ ∃ i, s.pc i = .set 0

theorem OneBucket.of_update {i : Fin N} {made : ℕ} {stored : Option ℕ} {heap : ℕ → Bucket ℚ}
    {x : Pc} (hs : ∀ i b, (s.pc i).bucket = some b → b = 0) (hx : x.bucket = some 0)
    (hstored : stored = some 0 ∨ stored = none ∧ ∃ j, update s.pc i x j = .set 0) :
    OneBucket (⟨stored, made, heap, update s.pc i x⟩ : Calls N) where
  bucket := by
    intro j b hb
    replace hb : (update s.pc i x j).bucket = some b := hb
    by_cases hj : j = i
    · rw [hj, update_self] at hb
      exact Option.some.inj (hb.symm.trans hx)
    · rw [update_of_ne hj] at hb
      exact hs j b hb
  stored := hstored

/-- Either nothing was done, or all calls share the first bucket. -/
def Shared (s : Calls N) : Prop :=
  (s.stored = none ∧ s.made = 0 ∧ ∀ i, s.pc i = .get) ∨ OneBucket s

open OneBucket

theorem shared_step {s s' : Calls N} {a : Act N} (hs : Shared s) (halone : Alone s a)
    (hstep : s.step l now a s') : Shared s' := by
  right
  rcases hs with ⟨hstored, hmade, hpc⟩ | hs
  · -- only the first call of all can do something
    match a with
    | .get i =>
      obtain ⟨-, rfl⟩ := hstep
      unfold Calls.get
      rw [hstored, hmade]
      refine of_update ?_ rfl (.inr ⟨rfl, i, update_self ..⟩)
      intro j b hb
      rw [hpc j] at hb
      cases hb
    | .set i | .reserve i =>
      obtain ⟨b, hlater, -⟩ := hstep
      rw [hpc i] at hlater
      cases hlater
    | .finish i back =>
      obtain ⟨-, -, b, delay, hcancel, -⟩ := hstep
      rw [hpc i] at hcancel
      cases hcancel
  · -- a call that is past `Set` is not the one the map waits for
    have hwaiting : ∀ {i x}, (∀ b, s.pc i ≠ .set b) → (s.stored = some 0 ∨
        s.stored = none ∧ ∃ j, update s.pc i x j = .set 0) := by
      intro i x hpast
      rcases hs.stored with hsome | ⟨hnone, j, hj⟩
      · exact .inl hsome
      · have hne : j ≠ i := by
          intro h
          exact hpast 0 (h ▸ hj)
        exact .inr ⟨hnone, j, by rw [update_of_ne hne, hj]⟩
    match a with
    | .get i =>
      obtain ⟨-, rfl⟩ := hstep
      rcases hs.stored with hsome | ⟨hnone, j, hj⟩
      · unfold Calls.get
        rw [hsome]
        exact of_update hs.bucket rfl (.inl rfl)
      · exact absurd hj (halone hnone j 0)
    | .set i =>
      obtain ⟨b, hset, rfl⟩ := hstep
      obtain rfl := hs.bucket i b (by rw [hset]; rfl)
      exact of_update hs.bucket rfl (.inl rfl)
    | .reserve i =>
      obtain ⟨b, hreserve, rfl⟩ := hstep
      obtain rfl := hs.bucket i b (by rw [hreserve]; rfl)
      exact of_update hs.bucket rfl (hwaiting (by rw [hreserve]; intro b h; cases h))
    | .finish i back =>
      obtain ⟨-, -, b, delay, hcancel, rfl⟩ := hstep
      obtain rfl := hs.bucket i b (by rw [hcancel]; rfl)
      exact of_update hs.bucket rfl (hwaiting (by rw [hcancel]; intro b h; cases h))

theorem shared_of_alone (h : ((allowCalls l now N).restrict Alone).Reachable s) : Shared s := by
  refine System.invariant Shared ?_ ?_ h
  · intro s hs
    rw [show s = start l now N from hs]
    exact .inl ⟨rfl, rfl, fun _ => rfl⟩
  · intro s a s' hs hstep
    exact shared_step hs hstep.1 hstep.2

theorem Shared.tally_isZero_le (h : Shared s) : tally isZero s.pc ≤ tally (zeroOn 0) s.pc := by
  refine tally_mono fun i hi => ?_
  rcases h with ⟨-, -, hpc⟩ | hs
  · rw [hpc i] at hi
    cases hi
  · cases hpc : s.pc i with
    | returned b delay =>
      rw [hpc] at hi
      have hb : b = 0 := hs.bucket i b (by rw [hpc]; rfl)
      simpa [zeroOn, hb, isZero] using hi
    | _ =>
      rw [hpc] at hi
      cases hi

/-! ## Buckets that are made at once -/

/-- The first `k` calls have looked for a bucket, and made one each. -/
def missed (l : Limiter) (now : ℚ) (N k : ℕ) : Calls N where
  stored := none
  made := k
  heap := fun _ => full l now
  pc := fun i => if i.val < k then .set i else .get

/-- All calls have a bucket of their own, and the first `k` have returned. -/
def served (l : Limiter) (now : ℚ) (N k : ℕ) : Calls N where
  stored := if k = 0 then none else some (k - 1)
  made := N
  heap := fun b => if b < k then ⟨now, l.burst - 1⟩ else full l now
  pc := fun i => if i.val < k then .returned i 0 else .set i

theorem reachable_missed {k : ℕ} (hk : k ≤ N) : (allowCalls l now N).Reachable (missed l now N k) := by
  induction k with
  | zero =>
    refine .init ?_
    show missed l now N 0 = start l now N
    simp [missed, start]
  | succ k ih =>
    refine .step (.get ⟨k, hk⟩) (ih (by omega)) ⟨by simp [missed], ?_⟩
    unfold missed Calls.get
    congr 1
    funext i
    rw [update_apply]
    by_cases hi : i.val = k
    · simp [Fin.ext_iff, hi]
    · have hlt : i.val < k + 1 ↔ i.val < k := by omega
      simp [Fin.ext_iff, hi, hlt]

theorem served_zero : served l now N 0 = missed l now N N := by
  unfold served missed
  simp

/-- The call that has a full bucket of its own. -/
theorem reachable_served {n k : ℕ} (hn : l.burst = n + 1) (hk : k ≤ N) :
    (allowCalls l now N).Reachable (served l now N k) := by
  induction k with
  | zero =>
    rw [served_zero]
    exact reachable_missed (le_refl N)
  | succ k ih =>
    have hres : (full l now).reserve l.toParams now = ⟨now, l.burst - 1⟩ := by
      rw [Bucket.reserve, full, level_self le_rfl]
    have hwait : (⟨now, l.burst - 1⟩ : Bucket ℚ).wait l.toParams = 0 := by
      refine if_neg (not_lt.mpr ?_)
      show 0 ≤ l.burst - 1
      rw [hn, add_sub_cancel_right]
      exact Nat.cast_nonneg n
    have hset : (allowCalls l now N).Reachable _ :=
      .step (.set ⟨k, hk⟩) (ih (by omega)) ⟨k, by simp [served], rfl⟩
    have hreserve : (allowCalls l now N).Reachable _ :=
      .step (.reserve ⟨k, hk⟩) hset ⟨k, by simp [Calls.set], rfl⟩
    have hfinish : (allowCalls l now N).Reachable _ :=
      .step (.finish ⟨k, hk⟩ 0) hreserve ⟨le_rfl, zero_le_one, k, 0,
        by simp [Calls.set, Calls.reserve, served, hres, hwait], rfl⟩
    convert hfinish using 1
    have hshort : ¬ l.maxDelay < 0 := not_lt.mpr l.maxDelay_nonneg
    simp only [Calls.set, Calls.reserve, Calls.finish, if_neg hshort, served, update_idem]
    congr 1
    · funext b
      by_cases hb : b = k
      · simp [hb, hres]
      · have hlt : b < k + 1 ↔ b < k := by omega
        simp [hb, hlt]
    · funext i
      rw [update_apply]
      by_cases hi : i.val = k
      · simp [Fin.ext_iff, hi]
      · have hlt : i.val < k + 1 ↔ i.val < k := by omega
        simp [Fin.ext_iff, hi, hlt]

/-- **The burst bounds the calls that need not wait** in every run that makes its buckets one at
    a time; and in all runs exactly when there are no more calls than that. -/
theorem burst_of_alone (config : Config) (l : Limiter) (h : new config = .ok (some l)) (N : ℕ)
    (now : ℚ) :
    (∀ s, ((allowCalls l now N).restrict Alone).Reachable s →
      (tally Pc.isZero s.pc : ℚ) ≤ l.burst) ∧
    ((∀ s, (allowCalls l now N).Reachable s → (tally Pc.isZero s.pc : ℚ) ≤ l.burst) ↔
      (N : ℚ) ≤ l.burst) := by
  obtain ⟨n, hregular⟩ := regular_of_new h
  refine ⟨?_, ?_, ?_⟩
  · intro s hs
    have hfirst : (tally (zeroOn 0) s.pc : ℚ) ≤ l.burst :=
      (chargedAt_of_reachable hregular.burst hs.of_restrict 0).2.1
    have hle : (tally isZero s.pc : ℚ) ≤ tally (zeroOn 0) s.pc := by
      exact_mod_cast (shared_of_alone hs).tally_isZero_le
    exact hle.trans hfirst
  · intro hall
    have hserved := hall _ (reachable_served hregular.burst (le_refl N))
    have hcount : tally isZero (served l now N N).pc = N := by
      simp [tally, served, isZero]
    rwa [hcount] at hserved
  · intro hN s _
    have hle : (tally isZero s.pc : ℚ) ≤ N := by
      exact_mod_cast tally_le isZero s.pc
    exact hle.trans hN

theorem burst_of_five : new ⟨1, 0, 1⟩ = .ok (some oneAtOnce) ∧
    ∀ s, ((allowCalls oneAtOnce 0 5).restrict Alone).Reachable s →
      (tally Pc.isZero s.pc : ℚ) ≤ oneAtOnce.burst :=
  ⟨new_oneAtOnce, (burst_of_alone ⟨1, 0, 1⟩ oneAtOnce new_oneAtOnce 5 0).1⟩

/-- Two calls that both find no bucket, with a burst of one: neither has to wait. -/
theorem both_served : new ⟨1, 0, 1⟩ = .ok (some oneAtOnce) ∧
    (allowCalls oneAtOnce 0 2).Reachable (served oneAtOnce 0 2 2) ∧
    (tally Pc.isZero (served oneAtOnce 0 2 2).pc : ℚ) > oneAtOnce.burst := by
  have hburst : oneAtOnce.burst = (0 : ℕ) + 1 := by norm_num [oneAtOnce]
  refine ⟨new_oneAtOnce, reachable_served hburst (le_refl 2), ?_⟩
  have hcount : tally isZero (served oneAtOnce 0 2 2).pc = 2 := by
    simp [tally, served, isZero]
  rw [hcount, hburst]
  norm_num

end Ingress.RateLimiter
