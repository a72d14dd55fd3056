import Mathlib.Tactic

/-! # Token Buckets

    A bucket is filled at a rate, up to its burst.  A request takes a token, and when there is
    none it takes one that is still to come: it then has to wait for it.  A request that would
    have to wait too long gives its token back.

    Time and tokens are numbers of an ordered field.

    * `level`: what a bucket has at a time.
    * `offer`: one request.
    * `admitted`: the times of the requests that do not wait too long.
    * `Sound`: no bucket is overdrawn by more than the waiting time allows.
    * `count_le`: how many requests are admitted within a window. -/

open List

namespace TokenBucket

variable {K : Type} [Field K] [LinearOrder K] [IsStrictOrderedRing K]

/-- The rate, the burst and the longest time to wait. -/
structure Params (K : Type) [Field K] [LinearOrder K] [IsStrictOrderedRing K] where
  rate : K
  burst : K
  maxDelay : K
  rate_nonneg : 0 ≤ rate
  burst_nonneg : 0 ≤ burst
  maxDelay_nonneg : 0 ≤ maxDelay

/-- The tokens at the time of the last change. -/
structure Bucket (K : Type) where
  last : K
  tokens : K
  deriving DecidableEq

variable (p : Params K)

/-- The tokens at a time. -/
def Bucket.level (b : Bucket K) (t : K) : K :=
  min p.burst (b.tokens + p.rate * (t - min b.last t))

/-- Take a token. -/
def Bucket.reserve (b : Bucket K) (t : K) : Bucket K :=
  ⟨t, b.level p t - 1⟩

/-- How long it takes until there is no token owed; without a rate it is longer than any delay. -/
def Bucket.wait (b : Bucket K) : K :=
  if b.tokens < 0 then if 0 < p.rate then -b.tokens / p.rate else p.maxDelay + 1 else 0

/-- Give a token back. -/
def Bucket.cancel (b : Bucket K) (t : K) : Bucket K :=
  ⟨t, min p.burst (b.level p t + 1)⟩

/-- One request: it is admitted unless it would have to wait too long. -/
def Bucket.offer (b : Bucket K) (t : K) : Bucket K × Bool :=
  if (b.reserve p t).wait p ≤ p.maxDelay then (b.reserve p t, true)
  else ((b.reserve p t).cancel p t, false)

/-- The times of the requests that are admitted. -/
def admitted : Bucket K → List K → List K
  | _, [] => []
  | b, t :: ts =>
    if (b.offer p t).2 then t :: admitted (b.offer p t).1 ts else admitted (b.offer p t).1 ts

/-! ## One request -/

variable {p} {b b' : Bucket K} {t x : K}

theorem level_le_burst (b : Bucket K) (t : K) : b.level p t ≤ p.burst := min_le_left _ _

theorem level_self {tokens : K} (h : tokens ≤ p.burst) :
    (⟨t, tokens⟩ : Bucket K).level p t = tokens := by
  show min p.burst (tokens + p.rate * (t - min t t)) = tokens
  rw [min_self, sub_self, mul_zero, add_zero, min_eq_right h]

open Bucket

/-- Tokens come in at the rate, at most. -/
theorem level_le_add (hx : b.last ≤ x) (hxt : x ≤ t) :
    b.level p t ≤ b.level p x + p.rate * (t - x) := by
  have hgrow : 0 ≤ p.rate * (t - x) := mul_nonneg p.rate_nonneg (sub_nonneg.mpr hxt)
  unfold level
  rw [min_eq_left hx, min_eq_left (hx.trans hxt)]
  rcases le_total p.burst (b.tokens + p.rate * (x - b.last)) with hfull | hfull
  · rw [min_eq_left hfull]
    exact (min_le_left _ _).trans (le_add_of_nonneg_right hgrow)
  · rw [min_eq_right hfull]
    refine (min_le_right _ _).trans (le_of_eq ?_)
    ring

theorem wait_le_iff : b.wait p ≤ p.maxDelay ↔ -(p.rate * p.maxDelay) ≤ b.tokens := by
  have hdebt : 0 ≤ p.rate * p.maxDelay := mul_nonneg p.rate_nonneg p.maxDelay_nonneg
  unfold wait
  split
  · next hneg =>
    split
    · next hrate => rw [div_le_iff₀ hrate, neg_le, mul_comm]
    · next hrate =>
      have hzero : p.rate = 0 := le_antisymm (not_lt.mp hrate) p.rate_nonneg
      rw [hzero, zero_mul, neg_zero]
      exact ⟨fun h => absurd (lt_add_one p.maxDelay) (not_lt.mpr h), fun h => absurd hneg (not_lt.mpr h)⟩
  · next hpos =>
    rw [not_lt] at hpos
    exact ⟨fun _ => (neg_nonpos.mpr hdebt).trans hpos, fun _ => p.maxDelay_nonneg⟩

/-- A token that is given back at once leaves what was there. -/
theorem cancel_reserve (b : Bucket K) (t : K) : (b.reserve p t).cancel p t = ⟨t, b.level p t⟩ := by
  have hlevel : (b.reserve p t).level p t = b.level p t - 1 :=
    level_self ((sub_le_self _ zero_le_one).trans (level_le_burst b t))
  rw [cancel, hlevel, sub_add_cancel, min_eq_right (level_le_burst b t)]

/-- What a request does depends on the level alone. -/
theorem offer_eq (b : Bucket K) (t : K) : b.offer p t =
    if -(p.rate * p.maxDelay) ≤ b.level p t - 1 then (⟨t, b.level p t - 1⟩, true)
    else (⟨t, b.level p t⟩, false) := by
  have hwait : (b.reserve p t).wait p ≤ p.maxDelay ↔ -(p.rate * p.maxDelay) ≤ b.level p t - 1 :=
    wait_le_iff
  unfold offer
  rw [cancel_reserve]
  by_cases hadmitted : -(p.rate * p.maxDelay) ≤ b.level p t - 1
  · rw [if_pos (hwait.mpr hadmitted), if_pos hadmitted]
    rfl
  · rw [if_neg fun h => hadmitted (hwait.mp h), if_neg hadmitted]

theorem offer_congr (h : b.level p t = b'.level p t) : b.offer p t = b'.offer p t := by
  rw [offer_eq, offer_eq, h]

/-- The bucket owes no more than comes in while a request waits. -/
structure Sound (p : Params K) (b : Bucket K) : Prop where
  owes : -(p.rate * p.maxDelay) ≤ b.tokens
  fits : b.tokens ≤ p.burst

theorem sound_full (t : K) : Sound p ⟨t, p.burst⟩ := by
  refine ⟨?_, le_rfl⟩
  have hdebt : 0 ≤ p.rate * p.maxDelay := mul_nonneg p.rate_nonneg p.maxDelay_nonneg
  exact (neg_nonpos.mpr hdebt).trans p.burst_nonneg

theorem Sound.level (h : Sound p b) (t : K) : -(p.rate * p.maxDelay) ≤ b.level p t := by
  refine le_min (h.owes.trans h.fits) (h.owes.trans ?_)
  have hpast : 0 ≤ t - min b.last t := sub_nonneg.mpr (min_le_right _ _)
  exact le_add_of_nonneg_right (mul_nonneg p.rate_nonneg hpast)

theorem Sound.offer (h : Sound p b) (t : K) : Sound p (b.offer p t).1 := by
  rw [offer_eq]
  split
  · next hadmitted =>
    exact ⟨hadmitted, (sub_le_self _ zero_le_one).trans (level_le_burst b t)⟩
  · exact ⟨h.level t, level_le_burst b t⟩

theorem last_offer (b : Bucket K) (t : K) : (b.offer p t).1.last = t := by
  rw [offer_eq]
  split <;> rfl

/-- What is left after a request that was admitted, or not. -/
theorem level_offer (b : Bucket K) (t : K) :
    (b.offer p t).1.level p t = b.level p t - if (b.offer p t).2 then 1 else 0 := by
  rw [offer_eq]
  split
  · exact level_self ((sub_le_self _ zero_le_one).trans (level_le_burst b t))
  · rw [level_self (level_le_burst b t)]
    simp

/-! ## Windows -/

/-- The number of the times from `a` to `z`. -/
def count (a z : K) (times : List K) : ℕ :=
  times.countP fun t => a ≤ t ∧ t ≤ z

theorem admitted_sublist (b : Bucket K) (ts : List K) : (admitted p b ts).Sublist ts := by
  induction ts generalizing b with
  | nil => exact .refl _
  | cons t ts ih =>
    rw [admitted]
    split
    · exact (ih _).cons_cons t
    · exact (ih _).cons t

/-- Nothing is counted when the window is over. -/
theorem count_eq_zero {a z : K} {ts : List K} (b : Bucket K) (h : ∀ t ∈ ts, z < t) :
    count a z (admitted p b ts) = 0 := by
  unfold count
  rw [countP_eq_zero]
  intro t ht hin
  have hin := of_decide_eq_true hin
  exact absurd hin.2 (not_le.mpr (h t ((admitted_sublist b ts).subset ht)))

/-- From a time of the window on, what is there and what comes in bounds what is taken. -/
theorem count_le_level {a z : K} {ts : List K} (hb : Sound p b) (hlast : b.last ≤ x) (hxz : x ≤ z)
    (hts : (x :: ts).Pairwise (· ≤ ·)) :
    (count a z (admitted p b ts) : K) ≤ b.level p x + p.rate * (z - x) + p.rate * p.maxDelay := by
  induction ts generalizing b x with
  | nil =>
    have hcome : 0 ≤ p.rate * (z - x) := mul_nonneg p.rate_nonneg (sub_nonneg.mpr hxz)
    have howes := hb.level x
    show ((0 : ℕ) : K) ≤ _
    rw [Nat.cast_zero]
    linarith
  | cons t ts ih =>
    obtain ⟨hfirst, hrest⟩ := pairwise_cons.mp hts
    have hxt : x ≤ t := hfirst t (.head _)
    by_cases htz : t ≤ z
    · have hnext := ih (hb.offer t) (last_offer b t).le htz hrest
      have hgrow : b.level p t ≤ b.level p x + p.rate * (t - x) := level_le_add hlast hxt
      rw [level_offer] at hnext
      rw [admitted]
      split
      · next hadmitted =>
        rw [if_pos hadmitted] at hnext
        have hone : count a z (t :: admitted p (b.offer p t).1 ts) ≤
            count a z (admitted p (b.offer p t).1 ts) + 1 := by
          unfold count
          rw [countP_cons]
          split <;> omega
        have hcast : (count a z (t :: admitted p (b.offer p t).1 ts) : K) ≤
            count a z (admitted p (b.offer p t).1 ts) + 1 := by exact_mod_cast hone
        linarith
      · next hrefused =>
        rw [if_neg hrefused] at hnext
        linarith
    · -- the window is over
      have hnone : count a z (admitted p b (t :: ts)) = 0 := by
        refine count_eq_zero b fun t' ht' => ?_
        rcases mem_cons.mp ht' with rfl | hmem
        · exact not_le.mp htz
        · exact (not_le.mp htz).trans_le ((pairwise_cons.mp hrest).1 t' hmem)
      have hcome : 0 ≤ p.rate * (z - x) := mul_nonneg p.rate_nonneg (sub_nonneg.mpr hxz)
      have howes := hb.level x
      rw [hnone, Nat.cast_zero]
      linarith

/-- **The bound of a window**: what is admitted within it is at most the burst and what comes in
    until the last request has waited. -/
theorem count_le {a z : K} {ts : List K} (hb : Sound p b) (haz : a ≤ z)
    (hts : (b.last :: ts).Pairwise (· ≤ ·)) :
    (count a z (admitted p b ts) : K) ≤ p.burst + p.rate * (z - a + p.maxDelay) := by
  have hpos : 0 ≤ p.burst + p.rate * (z - a + p.maxDelay) :=
    add_nonneg p.burst_nonneg (mul_nonneg p.rate_nonneg
      (add_nonneg (sub_nonneg.mpr haz) p.maxDelay_nonneg))
  induction ts generalizing b with
  | nil => simpa [admitted, count] using hpos
  | cons t ts ih =>
    obtain ⟨hfirst, hrest⟩ := pairwise_cons.mp hts
    by_cases hat : a ≤ t
    · by_cases htz : t ≤ z
      · -- the first request of the window finds at most a full bucket
        have hlevel := count_le_level (a := a) hb (hfirst t (.head _)) htz
          (pairwise_cons.mpr ⟨fun t' ht' => ?_, hrest⟩)
        · have hfull : b.level p t ≤ p.burst := level_le_burst b t
          have hlate : p.rate * (z - t) ≤ p.rate * (z - a) :=
            mul_le_mul_of_nonneg_left (sub_le_sub_left hat z) p.rate_nonneg
          linarith
        · rcases mem_cons.mp ht' with rfl | hmem
          · exact le_rfl
          · exact (pairwise_cons.mp hrest).1 t' hmem
      · rw [count_eq_zero b fun t' ht' => ?_, Nat.cast_zero]
        · exact hpos
        · rcases mem_cons.mp ht' with rfl | hmem
          · exact not_le.mp htz
          · exact (not_le.mp htz).trans_le ((pairwise_cons.mp hrest).1 t' hmem)
    · have hskip : count a z (admitted p b (t :: ts)) =
          count a z (admitted p (b.offer p t).1 ts) := by
        rw [admitted]
        split
        · exact countP_cons_of_neg (by simp [hat])
        · rfl
      rw [hskip]
      exact ih (hb.offer t) (by rw [last_offer]; exact hrest)

end TokenBucket
