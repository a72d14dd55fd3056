import Ingress.Framework.TokenBucket
import Mathlib.Data.Int.Log

/-! # Rate Limiting

    `pkg/middlewares/ratelimiter`: every source of requests has a token bucket.  The buckets are
    in a map whose entries are gone when they have not been used for some seconds; a source
    without a bucket gets a full one.

    Times, in seconds, and the values of rates are rational numbers.  The limiter of
    `golang.org/x/time/rate` is the bucket of `TokenBucket`.  The map has room for all sources.

    * `float64`, `wrap`, `toInt64`: the arithmetic of Go.
    * `new`, `allow`, `serveHTTP`: the code.
    * `admittedOf_eq`: when no bucket is gone before it would be full again, the requests of a
      source are those of one bucket.
    * `window_bound_iff`: when the bound of every window is kept. -/

open TokenBucket Prod Function Int

namespace Ingress.RateLimiter

/-! ## Numbers -/

/-- The nearest integer, the even one of two. -/
def roundEven (x : ℚ) : ℤ :=
  if x - ⌊x⌋ < 1 / 2 ∨ x - ⌊x⌋ = 1 / 2 ∧ 2 ∣ ⌊x⌋ then ⌊x⌋ else ⌊x⌋ + 1

/-- The nearest `float64`, with 53 binary digits.  No number here is near the smallest or the
    largest ones. -/
def float64 (x : ℚ) : ℚ :=
  let ulp : ℚ := 2 ^ (Int.log 2 |x| - 52)
  roundEven (x / ulp) * ulp

/-- An `int64` after an operation. -/
def wrap (n : ℤ) : ℤ :=
  (n + 2 ^ 63) % 2 ^ 64 - 2 ^ 63

/-- A positive `float64` as an `int64`; one that is too large becomes the smallest `int64`, as on
    amd64. -/
def toInt64 (x : ℚ) : ℤ :=
  if ⌊x⌋ < 2 ^ 63 then ⌊x⌋ else -2 ^ 63

/-! ## The code -/

/-- `dynamic.RateLimit`, with the period in nanoseconds. -/
structure Config where
  average : ℤ
  period : ℤ
  burst : ℤ
  deriving DecidableEq, Repr

/-- What the buckets of a limiter have in common, and the seconds until one is gone. -/
structure Limiter extends Params ℚ where
  ttl : ℤ

/-- The period, which is a second by default. -/
def Config.periodOrSecond (config : Config) : ℤ :=
  if config.period = 0 then 10 ^ 9 else config.period

/-- `rtl`, the requests per second. -/
def Config.rtl (config : Config) : ℚ :=
  float64 (float64 (wrap (config.average * 10 ^ 9)) / float64 config.periodOrSecond)

/-- `maxDelay`, in nanoseconds, unless the division panics. -/
def maxDelay (rtl : ℚ) : Option ℤ :=
  if rtl < 1 then some (5 * 10 ^ 8)
  else if wrap (toInt64 rtl * 2) = 0 then none
  else some (Int.tdiv (10 ^ 9) (wrap (toInt64 rtl * 2)))

def ttl (rtl : ℚ) : ℤ :=
  if 1 ≤ rtl then 2 else if 0 < rtl then 1 + ⌊float64 (1 / rtl)⌋ else 1

/-- What `New` makes when it is no limiter with buckets: the error `negative value not valid for
    period`, a panic, or a limiter with a negative delay, which refuses every request. -/
inductive NewError where
  | negativePeriod (period : ℤ)
  | divisionByZero
  | negativeDelay (maxDelay : ℤ)
  deriving DecidableEq, Repr

open Config

/-- `New`, with the in-memory limiter.  Without an average nothing is limited.  The tokens of a
    rate below zero are those of a rate of zero. -/
def new (config : Config) : Except NewError (Option Limiter) :=
  if config.period < 0 then .error (.negativePeriod config.period)
  else if 0 < config.average then
    match maxDelay config.rtl with
    | none => .error .divisionByZero
    | some delay =>
      if hdelay : 0 ≤ delay then
        .ok (some {
          rate := max config.rtl 0
          burst := (max config.burst 1 : ℤ)
          maxDelay := delay / 10 ^ 9
          ttl := ttl config.rtl
          rate_nonneg := le_max_right _ _
          burst_nonneg := by
            have hmax : (0 : ℤ) ≤ max config.burst 1 := (zero_le_one).trans (le_max_right _ _)
            exact_mod_cast hmax
          maxDelay_nonneg := div_nonneg (by exact_mod_cast hdelay) (by norm_num) })
      else .error (.negativeDelay delay)
  else .ok none

/-- An entry of the map: a bucket, and when it is gone. -/
structure Entry where
  bucket : Bucket ℚ
  expiry : ℚ

/-- The map of the buckets. -/
abbrev Buckets := String → Option Entry

/-- `Get` of the map. -/
def Buckets.get (buckets : Buckets) (now : ℚ) (source : String) : Option (Bucket ℚ) :=
  (buckets source).bind fun e => if now < e.expiry then some e.bucket else none

variable (l : Limiter)

/-- The bucket of a source, or a new one. -/
def bucketOf (buckets : Buckets) (now : ℚ) (source : String) : Bucket ℚ :=
  (buckets.get now source).getD ⟨now, l.burst⟩

/-- `Allow`: the delay, and the map.  The map holds the bucket itself, so that what is reserved
    shows in it. -/
def allow (buckets : Buckets) (now : ℚ) (source : String) : ℚ × Buckets :=
  let res := (bucketOf l buckets now source).reserve l.toParams now
  let delay := res.wait l.toParams
  let bucket := if l.maxDelay < delay then res.cancel l.toParams now else res
  (delay, update buckets source (some ⟨bucket, now + l.ttl⟩))

/-- `ServeHTTP`: whether the request is admitted. -/
def serveHTTP (buckets : Buckets) (now : ℚ) (source : String) : Bool × Buckets :=
  (decide ((allow l buckets now source).1 ≤ l.maxDelay), (allow l buckets now source).2)

/-- The times of the requests of a source that are admitted. -/
def admittedOf (source : String) : Buckets → List (ℚ × String) → List ℚ
  | _, [] => []
  | buckets, (now, from_) :: requests =>
    let (ok, buckets') := serveHTTP l buckets now from_
    if ok && from_ = source then now :: admittedOf source buckets' requests
    else admittedOf source buckets' requests

/-! ## One request -/

variable {l} {buckets : Buckets} {now : ℚ} {source : String}

theorem serveHTTP_eq (buckets : Buckets) (now : ℚ) (src : String) :
    serveHTTP l buckets now src =
      (((bucketOf l buckets now src).offer l.toParams now).2, update buckets src
        (some ⟨((bucketOf l buckets now src).offer l.toParams now).1, now + l.ttl⟩)) := by
  unfold serveHTTP allow Bucket.offer
  dsimp only
  by_cases hwait : ((bucketOf l buckets now src).reserve l.toParams now).wait l.toParams ≤ l.maxDelay
  · rw [if_pos hwait, if_neg (not_lt.mpr hwait), decide_eq_true hwait]
  · rw [if_neg hwait, if_pos (not_le.mp hwait), decide_eq_false hwait]

/-! ## Buckets that are not missed -/

/-- No bucket is gone before it would be full again. -/
def Limiter.Refills (l : Limiter) : Prop :=
  l.burst + l.rate * l.maxDelay ≤ l.rate * l.ttl

/-- The entry of a source stands for the bucket. -/
def Stands (l : Limiter) (b : Bucket ℚ) : Option Entry → Prop
  | none => b.tokens = l.burst
  | some e => e = ⟨b, b.last + l.ttl⟩

/-- A bucket that is gone would be full. -/
theorem level_of_stands (hrefills : l.Refills) {b : Bucket ℚ} (hb : Sound l.toParams b)
    (hstands : Stands l b (buckets source)) (hlast : b.last ≤ now) :
    (bucketOf l buckets now source).level l.toParams now = b.level l.toParams now := by
  have hnew : (⟨now, l.burst⟩ : Bucket ℚ).level l.toParams now = l.burst := level_self le_rfl
  have hfull : l.burst ≤ b.tokens + l.rate * (now - b.last) →
      b.level l.toParams now = l.burst := by
    intro hle
    rw [Bucket.level, min_eq_left hlast, min_eq_left hle]
  unfold bucketOf Buckets.get
  cases hentry : buckets source with
  | none =>
    rw [hentry] at hstands
    have hage : 0 ≤ l.rate * (now - b.last) := mul_nonneg l.rate_nonneg (sub_nonneg.mpr hlast)
    show (⟨now, l.burst⟩ : Bucket ℚ).level l.toParams now = _
    rw [hnew, hfull]
    rw [show b.tokens = l.burst from hstands]
    exact le_add_of_nonneg_right hage
  | some e =>
    rw [hentry] at hstands
    obtain rfl : e = ⟨b, b.last + l.ttl⟩ := hstands
    rw [Option.bind_some]
    split
    · rfl
    · next hgone =>
      show (⟨now, l.burst⟩ : Bucket ℚ).level l.toParams now = _
      rw [hnew, hfull]
      have hage : l.rate * l.ttl ≤ l.rate * (now - b.last) :=
        mul_le_mul_of_nonneg_left (by linarith) l.rate_nonneg
      have howes := hb.owes
      unfold Limiter.Refills at hrefills
      linarith

/-- **The requests of a source** are those of one bucket. -/
theorem admittedOf_eq (hrefills : l.Refills) {b : Bucket ℚ} (hb : Sound l.toParams b)
    {reqs : List (ℚ × String)} (hstands : Stands l b (buckets source))
    (htimes : (b.last :: reqs.map fst).Pairwise (· ≤ ·)) :
    admittedOf l source buckets reqs =
      admitted l.toParams b ((reqs.filter fun r => r.2 = source).map fst) := by
  induction reqs generalizing buckets b with
  | nil => rfl
  | cons req reqs ih =>
    obtain ⟨now, from_⟩ := req
    obtain ⟨hfirst, hrest⟩ := List.pairwise_cons.mp htimes
    have hlast : b.last ≤ now := hfirst now (.head _)
    rw [admittedOf]
    rw [serveHTTP_eq]
    by_cases hfrom : from_ = source
    · subst hfrom
      have hoffer : (bucketOf l buckets now from_).offer l.toParams now = b.offer l.toParams now :=
        offer_congr (level_of_stands hrefills hb hstands hlast)
      rw [hoffer]
      have hnext := @ih (update buckets from_
          (some ⟨(b.offer l.toParams now).1, now + l.ttl⟩)) _ (hb.offer now)
        (by rw [update_self, Stands, last_offer]) (by rw [last_offer]; exact hrest)
      simp [admitted, hnext]
    · have hnext := @ih (update buckets from_ (some ⟨((bucketOf l buckets now
          from_).offer l.toParams now).1, now + l.ttl⟩)) _ hb
        (by rw [update_of_ne (Ne.symm hfrom)]; exact hstands)
        (List.pairwise_cons.mpr ⟨fun t ht => hfirst t (.tail _ ht),
          (List.pairwise_cons.mp hrest).2⟩)
      simp [hfrom, hnext]

/-! ## Buckets that are gone too soon -/

theorem level_of_none {t : ℚ} (h : buckets.get t source = none) :
    (bucketOf l buckets t source).level l.toParams t = l.burst := by
  rw [bucketOf, h]
  exact level_self le_rfl

theorem level_of_entry {t t' toks : ℚ} (h : buckets source = some ⟨⟨t, toks⟩, t + l.ttl⟩)
    (htime : t ≤ t') (hused : t' < t + l.ttl) :
    (bucketOf l buckets t' source).level l.toParams t' =
      min l.burst (toks + l.rate * (t' - t)) := by
  have hget : buckets.get t' source = some ⟨t, toks⟩ := by
    rw [Buckets.get, h, Option.bind_some, if_pos hused]
  rw [bucketOf, hget, Option.getD_some, Bucket.level, min_eq_left htime]

/-- A request that does not overdraw its bucket. -/
theorem admittedOf_cons {toks : ℚ} (reqs : List (ℚ × String))
    (hlevel : (bucketOf l buckets now source).level l.toParams now = toks + 1)
    (hok : -(l.rate * l.maxDelay) ≤ toks) : ∃ buckets' : Buckets,
      admittedOf l source buckets ((now, source) :: reqs) =
        now :: admittedOf l source buckets' reqs ∧
      buckets' source = some ⟨⟨now, toks⟩, now + l.ttl⟩ := by
  have hoffer : (bucketOf l buckets now source).offer l.toParams now = (⟨now, toks⟩, true) := by
    rw [offer_eq, hlevel, add_sub_cancel_right, if_pos hok]
  refine ⟨update buckets source (some ⟨⟨now, toks⟩, now + l.ttl⟩), ?_, ?_⟩
  · rw [admittedOf, serveHTTP_eq, hoffer]
    simp
  · rw [update_self]

/-- Requests at one time, as many as there are tokens. -/
theorem admittedOf_replicate (httl : 0 < l.ttl) {n : ℕ} {toks : ℚ} (reqs : List (ℚ × String))
    (hlevel : (bucketOf l buckets now source).level l.toParams now = toks + (n + 1))
    (hok : 0 ≤ toks) : ∃ buckets' : Buckets,
      admittedOf l source buckets (List.replicate (n + 1) (now, source) ++ reqs) =
        List.replicate (n + 1) now ++ admittedOf l source buckets' reqs ∧
      buckets' source = some ⟨⟨now, toks⟩, now + l.ttl⟩ := by
  have hdebt : 0 ≤ l.rate * l.maxDelay := mul_nonneg l.rate_nonneg l.maxDelay_nonneg
  induction n generalizing buckets with
  | zero =>
    refine admittedOf_cons reqs ?_ (by linarith)
    rw [hlevel]
    simp
  | succ n ih =>
    have hfits := level_le_burst (bucketOf l buckets now source) now (p := l.toParams)
    rw [hlevel] at hfits
    obtain ⟨buckets₁, hfirst, hentry⟩ := @admittedOf_cons l buckets now source (toks + (n + 1))
      (.replicate (n + 1) (now, source) ++ reqs) (by rw [hlevel]; push_cast; ring)
      (by linarith)
    have httl' : (0 : ℚ) < l.ttl := by exact_mod_cast httl
    have hlevel₁ : (bucketOf l buckets₁ now source).level l.toParams now = toks + (n + 1) := by
      rw [level_of_entry hentry le_rfl (by linarith), sub_self, mul_zero, add_zero,
        min_eq_right]
      push_cast at hfits
      linarith
    obtain ⟨buckets', hrest, hlast⟩ := ih hlevel₁
    refine ⟨buckets', ?_, hlast⟩
    rw [List.replicate_succ, List.cons_append, hfirst, hrest]
    rfl

/-- The time after which an empty bucket can be overdrawn by as much as is allowed. -/
def Limiter.pause (l : Limiter) : ℚ :=
  1 / l.rate - l.maxDelay

/-- As many requests as a full bucket has tokens, and one more as soon as it is admitted. -/
def cycle (l : Limiter) (n : ℕ) (start : ℚ) (source : String) : List (ℚ × String) :=
  List.replicate (n + 1) (start, source) ++ [(start + l.pause, source)]

/-- What the limiters of a configuration have in common. -/
structure Limiter.Regular (l : Limiter) (n : ℕ) : Prop where
  burst : l.burst = n + 1
  debt : l.rate * l.maxDelay < 1
  ttl_pos : 0 < l.ttl

/-- A limiter that has a token again before its bucket is gone. -/
structure Limiter.Recovers (l : Limiter) (n : ℕ) : Prop extends l.Regular n where
  rate_pos : 0 < l.rate
  pause : l.pause < l.ttl

theorem Limiter.Recovers.pause_pos {n : ℕ} (h : l.Recovers n) : 0 < l.pause := by
  have hlt : l.maxDelay < 1 / l.rate := by
    rw [lt_div_iff₀ h.rate_pos, mul_comm]
    exact h.debt
  exact sub_pos.mpr hlt

/-- All requests of a cycle that starts with a full bucket are admitted, and the bucket is then
    overdrawn. -/
theorem admittedOf_cycle {n : ℕ} (h : l.Recovers n) {start : ℚ} (reqs : List (ℚ × String))
    (hfull : (bucketOf l buckets start source).level l.toParams start = l.burst) :
    ∃ buckets' : Buckets,
      admittedOf l source buckets (cycle l n start source ++ reqs) =
        List.replicate (n + 1) start ++ (start + l.pause) :: admittedOf l source buckets' reqs ∧
      buckets' source = some ⟨⟨start + l.pause, -(l.rate * l.maxDelay)⟩, start + l.pause + l.ttl⟩ := by
  have hcome : l.rate * l.pause = 1 - l.rate * l.maxDelay := by
    rw [Limiter.pause, mul_sub, mul_one_div_cancel h.rate_pos.ne']
  have hpos := h.pause_pos
  obtain ⟨buckets₁, hfirst, hentry⟩ := @admittedOf_replicate l buckets start source h.ttl_pos n 0
    ((start + l.pause, source) :: reqs) (by rw [hfull, h.burst, zero_add]) le_rfl
  have hlevel : (bucketOf l buckets₁ (start + l.pause) source).level l.toParams (start + l.pause) =
      -(l.rate * l.maxDelay) + 1 := by
    have hpause := h.pause
    rw [level_of_entry hentry (by linarith) (by linarith), zero_add, add_sub_cancel_left, hcome,
      min_eq_right]
    · ring
    · have hdebt : 0 ≤ l.rate * l.maxDelay := mul_nonneg l.rate_nonneg l.maxDelay_nonneg
      rw [h.burst]
      linarith
  obtain ⟨buckets', hlast, hentry'⟩ := admittedOf_cons reqs hlevel le_rfl
  refine ⟨buckets', ?_, hentry'⟩
  rw [cycle, List.append_assoc, List.singleton_append, hfirst, hlast]

/-- A product that is positive has not wrapped. -/
theorem wrap_double {rtl : ℚ} (hone : 1 ≤ ⌊rtl⌋) (h : 0 < wrap (toInt64 rtl * 2)) :
    wrap (toInt64 rtl * 2) = ⌊rtl⌋ * 2 := by
  unfold wrap toInt64 at h ⊢
  split at h <;> split <;> omega

/-- Less than a token comes in during the longest delay: the rate is below twice its whole part,
    and the delay is taken for that. -/
theorem rate_mul_maxDelay {rtl : ℚ} {delay : ℤ} (h : maxDelay rtl = some delay) (hdelay : 0 ≤ delay) :
    max rtl 0 * (delay / 10 ^ 9) < 1 := by
  unfold maxDelay at h
  split at h
  · next hlow =>
    obtain rfl := Option.some.inj h
    rcases max_cases rtl 0 with ⟨hmax, -⟩ | ⟨hmax, -⟩ <;> rw [hmax] <;> norm_num
    linarith
  · next hhigh =>
    rw [not_lt] at hhigh
    split at h
    · cases h
    obtain rfl := Option.some.inj h
    have hone : 1 ≤ ⌊rtl⌋ := le_floor.mpr (by exact_mod_cast hhigh)
    rw [max_eq_left (by linarith)]
    rcases hdelay.eq_or_lt with hzero | hpos
    · rw [← hzero]
      norm_num
    · have hwrap : wrap (toInt64 rtl * 2) = ⌊rtl⌋ * 2 := by
        refine wrap_double hone (not_le.mp fun hneg => ?_)
        exact absurd (Int.tdiv_nonpos_of_nonneg_of_nonpos (by norm_num) hneg) (not_le.mpr hpos)
      rw [hwrap, Int.tdiv_eq_ediv_of_nonneg (by norm_num)] at hpos ⊢
      have hmul : 10 ^ 9 / (⌊rtl⌋ * 2) * (⌊rtl⌋ * 2) ≤ 10 ^ 9 := Int.ediv_mul_le _ (by omega)
      have hcast : ((10 ^ 9 / (⌊rtl⌋ * 2) : ℤ) : ℚ) * (⌊rtl⌋ * 2) ≤ 10 ^ 9 := by
        exact_mod_cast hmul
      have hsome : (0 : ℚ) < (10 ^ 9 / (⌊rtl⌋ * 2) : ℤ) := by exact_mod_cast hpos
      have hlt : rtl < ⌊rtl⌋ * 2 := by
        have hnext := lt_floor_add_one rtl
        have hfloor : (1 : ℚ) ≤ ⌊rtl⌋ := by exact_mod_cast hone
        linarith
      rw [mul_div_assoc', div_lt_one (by norm_num), mul_comm]
      exact (mul_lt_mul_of_pos_left hlt hsome).trans_le hcast

theorem ttl_pos (rtl : ℚ) : 0 < ttl rtl := by
  unfold ttl
  split
  · norm_num
  split
  · next hpos =>
    have hround : ∀ x : ℚ, 0 ≤ x → 0 ≤ float64 x := by
      intro x hx
      have hulp : (0 : ℚ) < 2 ^ (Int.log 2 |x| - 52) := by positivity
      have hfloor : 0 ≤ ⌊x / 2 ^ (Int.log 2 |x| - 52)⌋ := floor_nonneg.mpr (by positivity)
      have hnearest : (0 : ℚ) ≤ roundEven (x / 2 ^ (Int.log 2 |x| - 52)) := by
        unfold roundEven
        split <;> exact_mod_cast (by omega)
      exact mul_nonneg hnearest hulp.le
    have hfloor : 0 ≤ ⌊float64 (1 / rtl)⌋ := floor_nonneg.mpr (hround _ (by positivity))
    omega
  · norm_num

theorem regular_of_new {cfg : Config} (h : new cfg = .ok (some l)) : ∃ n, l.Regular n := by
  unfold new at h
  split at h
  · cases h
  split at h
  · split at h
    · cases h
    next delay hsome =>
    split at h
    · next hdelay =>
      obtain rfl := Option.some.inj (Except.ok.inj h)
      refine ⟨(max cfg.burst 1 - 1).toNat, ?_, rate_mul_maxDelay hsome hdelay, ttl_pos _⟩
      have hmax : ((max cfg.burst 1 - 1).toNat : ℤ) = max cfg.burst 1 - 1 :=
        toNat_of_nonneg (sub_nonneg.mpr (le_max_right _ _))
      have hcast : (((max cfg.burst 1 - 1).toNat : ℤ) : ℚ) = ((max cfg.burst 1 - 1 : ℤ) : ℚ) := by
        rw [hmax]
      show ((max cfg.burst 1 : ℤ) : ℚ) = _
      rw [cast_natCast] at hcast
      rw [hcast]
      push_cast
      ring
    · cases h
  · cases h

/-! ## The bound -/

/-- In every window, a source has no more requests admitted than the burst and the rate allow. -/
def Limiter.Bounded (l : Limiter) : Prop :=
  ∀ (requests : List (ℚ × String)) (source : String) (start d : ℚ), 0 ≤ d →
    (requests.map fst).Pairwise (· ≤ ·) →
    (count start (start + d) (admittedOf l source (fun _ => none) requests) : ℚ) ≤
      l.burst + l.rate * (d + l.maxDelay)

theorem bounded_of_refills (hrefills : l.Refills) : l.Bounded := by
  intro reqs src start d hd htimes
  match reqs with
  | [] =>
    have hpos : 0 ≤ l.rate * (d + l.maxDelay) :=
      mul_nonneg l.rate_nonneg (add_nonneg hd l.maxDelay_nonneg)
    show ((0 : ℕ) : ℚ) ≤ _
    exact add_nonneg l.burst_nonneg hpos
  | (now, from_) :: reqs =>
    have hlate : ∀ t ∈ ((now, from_) :: reqs).map fst, now ≤ t := by
      intro t ht
      rcases List.mem_cons.mp ht with rfl | ht
      · exact le_rfl
      · exact (List.pairwise_cons.mp htimes).1 t ht
    have hstands : Stands l ⟨now, l.burst⟩ ((fun _ => none : Buckets) src) := rfl
    rw [admittedOf_eq hrefills (sound_full now) hstands (List.pairwise_cons.mpr ⟨hlate, htimes⟩)]
    have hbound := @count_le ℚ _ _ _ l.toParams ⟨now, l.burst⟩ start (start + d)
      ((((now, from_) :: reqs).filter fun r => r.2 = src).map fst) (sound_full now)
      (by linarith) ?_
    · rwa [add_sub_cancel_left] at hbound
    · have hsub : ((((now, from_) :: reqs).filter fun r => r.2 = src).map fst).Sublist
          (((now, from_) :: reqs).map fst) := List.filter_sublist.map _
      exact List.pairwise_cons.mpr ⟨fun t ht => hlate t (hsub.subset ht), htimes.sublist hsub⟩

/-- Two cycles, the second as soon as the bucket is gone. -/
def overrun (l : Limiter) (n : ℕ) : List (ℚ × String) :=
  cycle l n 0 "" ++ cycle l n (l.pause + l.ttl) ""

theorem admittedOf_overrun {n : ℕ} (h : l.Recovers n) :
    admittedOf l "" (fun _ => none) (overrun l n) =
      List.replicate (n + 1) 0 ++ l.pause ::
        (List.replicate (n + 1) (l.pause + l.ttl) ++ [l.pause + l.ttl + l.pause]) := by
  obtain ⟨buckets₁, hfirst, hentry⟩ := @admittedOf_cycle l (fun _ => none) "" n h 0
    (cycle l n (l.pause + l.ttl) "") (level_of_none rfl)
  rw [zero_add] at hfirst hentry
  -- the bucket is gone when the second cycle starts
  have hgone : buckets₁.get (l.pause + l.ttl) "" = none := by
    rw [Buckets.get, hentry, Option.bind_some, if_neg (lt_irrefl _)]
  obtain ⟨buckets₂, hsecond, -⟩ := admittedOf_cycle h [] (level_of_none hgone)
  rw [List.append_nil] at hsecond
  rw [overrun, hfirst, hsecond]
  rfl

theorem Limiter.Recovers.refills {n : ℕ} (h : l.Recovers n) (hbounded : l.Bounded) :
    l.Refills := by
  have hpause := h.pause_pos
  have httl : (0 : ℚ) < l.ttl := by exact_mod_cast h.ttl_pos
  have hsorted : ((overrun l n).map fst).Pairwise (· ≤ ·) := by
    simp only [overrun, cycle, List.map_append, List.map_replicate, List.map_cons, List.map_nil,
      List.pairwise_append, List.pairwise_replicate, List.pairwise_singleton, List.mem_append,
      List.mem_replicate, List.mem_singleton]
    refine ⟨⟨.inr le_rfl, trivial, ?_⟩, ⟨.inr le_rfl, trivial, ?_⟩, ?_⟩
    · rintro t ⟨-, rfl⟩ t' rfl
      linarith
    · rintro t ⟨-, rfl⟩ t' rfl
      linarith
    · rintro t (⟨-, rfl⟩ | rfl) t' (⟨-, rfl⟩ | rfl) <;> linarith
  have hwindow := hbounded (overrun l n) "" 0 (l.pause + l.ttl + l.pause) (by linarith) hsorted
  rw [admittedOf_overrun h, zero_add] at hwindow
  have hcount : count 0 (l.pause + l.ttl + l.pause) (List.replicate (n + 1) 0 ++ l.pause ::
      (.replicate (n + 1) (l.pause + l.ttl) ++ [l.pause + l.ttl + l.pause])) =
      2 * n + 4 := by
    unfold count
    rw [List.countP_eq_length.mpr]
    · simp
      omega
    · intro t ht
      simp only [List.mem_append, List.mem_replicate, List.mem_cons, List.not_mem_nil, or_false] at ht
      rw [decide_eq_true_eq]
      rcases ht with ⟨-, rfl⟩ | rfl | ⟨-, rfl⟩ | rfl <;> constructor <;> linarith
  rw [hcount, h.burst] at hwindow
  have hcome : l.rate * (l.pause + l.ttl + l.pause + l.maxDelay) =
      2 - l.rate * l.maxDelay + l.rate * l.ttl := by
    have hone : l.rate * (1 / l.rate) = 1 := mul_one_div_cancel h.rate_pos.ne'
    unfold Limiter.pause
    linear_combination 2 * hone
  unfold Limiter.Refills
  rw [h.burst]
  push_cast at hwindow
  linarith

/-- Three full buckets, each as soon as the one before is gone. -/
def threeBursts (l : Limiter) (n : ℕ) : List (ℚ × String) :=
  List.replicate (n + 1) (0, "") ++ (List.replicate (n + 1) ((l.ttl : ℚ), "") ++
    List.replicate (n + 1) (2 * (l.ttl : ℚ), ""))

theorem admittedOf_threeBursts {n : ℕ} (h : l.Regular n) :
    admittedOf l "" (fun _ => none) (threeBursts l n) = List.replicate (n + 1) 0 ++
      (List.replicate (n + 1) (l.ttl : ℚ) ++ List.replicate (n + 1) (2 * (l.ttl : ℚ))) := by
  -- a bucket that is gone is full when it is made again
  have hburst : ∀ {buckets : Buckets} {t : ℚ} (reqs), buckets.get t "" = none →
      ∃ buckets' : Buckets, admittedOf l "" buckets (List.replicate (n + 1) (t, "") ++ reqs) =
        List.replicate (n + 1) t ++ admittedOf l "" buckets' reqs ∧
      buckets'.get (t + l.ttl) "" = none := by
    intro buckets t reqs hnone
    obtain ⟨buckets', hadmitted, hentry⟩ := @admittedOf_replicate l buckets t "" h.ttl_pos n 0 reqs
      (by rw [level_of_none hnone, h.burst, zero_add]) le_rfl
    refine ⟨buckets', hadmitted, ?_⟩
    rw [Buckets.get, hentry, Option.bind_some, if_neg (lt_irrefl _)]
  obtain ⟨_, hfirst, hgone₁⟩ := @hburst (fun _ => none) 0 _ rfl
  rw [zero_add] at hgone₁
  obtain ⟨_, hsecond, hgone₂⟩ := hburst _ hgone₁
  rw [← two_mul] at hgone₂
  obtain ⟨_, hthird, -⟩ := hburst [] hgone₂
  rw [List.append_nil] at hthird
  rw [threeBursts, hfirst, hsecond, hthird]
  simp [admittedOf]

/-- Where less than a token comes in before a bucket is gone. -/
theorem refills_of_starved {n : ℕ} (h : l.Regular n) (hstarved : l.rate * (l.ttl + l.maxDelay) ≤ 1)
    (hbounded : l.Bounded) : l.Refills := by
  have httl : (0 : ℚ) < l.ttl := by exact_mod_cast h.ttl_pos
  have hsorted : ((threeBursts l n).map fst).Pairwise (· ≤ ·) := by
    simp only [threeBursts, List.map_append, List.map_replicate, List.pairwise_append,
      List.pairwise_replicate, List.mem_append, List.mem_replicate]
    refine ⟨.inr le_rfl, ⟨.inr le_rfl, .inr le_rfl, ?_⟩, ?_⟩
    · rintro t ⟨-, rfl⟩ t' ⟨-, rfl⟩
      linarith
    · rintro t ⟨-, rfl⟩ t' (⟨-, rfl⟩ | ⟨-, rfl⟩) <;> linarith
  have hwindow := hbounded (threeBursts l n) "" 0 (2 * l.ttl) (by linarith) hsorted
  rw [admittedOf_threeBursts h, zero_add] at hwindow
  have hcount : count 0 (2 * (l.ttl : ℚ)) (List.replicate (n + 1) 0 ++
      (List.replicate (n + 1) (l.ttl : ℚ) ++ List.replicate (n + 1) (2 * (l.ttl : ℚ)))) =
      3 * (n + 1) := by
    unfold count
    rw [List.countP_eq_length.mpr]
    · simp
      omega
    · intro t ht
      simp only [List.mem_append, List.mem_replicate] at ht
      rw [decide_eq_true_eq]
      rcases ht with ⟨-, rfl⟩ | ⟨-, rfl⟩ | ⟨-, rfl⟩ <;> constructor <;> linarith
  rw [hcount, h.burst] at hwindow
  have hdebt : 0 ≤ l.rate * l.maxDelay := mul_nonneg l.rate_nonneg l.maxDelay_nonneg
  have hn : (0 : ℚ) ≤ n := Nat.cast_nonneg n
  unfold Limiter.Refills
  rw [h.burst]
  rw [mul_add] at hstarved hwindow
  push_cast at hwindow
  linarith

theorem refills_of_bounded {n : ℕ} (h : l.Regular n) (hbounded : l.Bounded) : l.Refills := by
  by_cases hstarved : l.rate * (l.ttl + l.maxDelay) ≤ 1
  · exact refills_of_starved h hstarved hbounded
  · rw [not_le] at hstarved
    have hrate : 0 < l.rate := by
      refine l.rate_nonneg.lt_of_ne fun hzero => ?_
      rw [← hzero, zero_mul] at hstarved
      exact absurd hstarved (by norm_num)
    refine Limiter.Recovers.refills (n := n) ⟨h, hrate, ?_⟩ hbounded
    rw [Limiter.pause, sub_lt_iff_lt_add, div_lt_iff₀ hrate, mul_comm]
    exact hstarved

/-- **The bound of every window** is kept exactly when no bucket is gone before it would be full
    again. -/
theorem window_bound_iff (config : Config) (l : Limiter) (h : new config = .ok (some l)) :
    l.Bounded ↔ l.burst + l.rate * l.maxDelay ≤ l.rate * l.ttl := by
  obtain ⟨n, hregular⟩ := regular_of_new h
  exact ⟨refills_of_bounded hregular, bounded_of_refills⟩

/-- One request per second, and three at once. -/
def threeAtOnce : Limiter where
  rate := 1
  burst := 3
  maxDelay := 1 / 2
  ttl := 2
  rate_nonneg := by norm_num
  burst_nonneg := by norm_num
  maxDelay_nonneg := by norm_num

theorem new_of_average_one {l : Limiter} {burst : ℤ} (hrate : l.rate = 1)
    (hburst : l.burst = (max burst 1 : ℤ)) (hdelay : l.maxDelay = 1 / 2) (httl : l.ttl = 2) :
    new ⟨1, 0, burst⟩ = .ok (some l) := by
  have hrtl : (⟨1, 0, burst⟩ : Config).rtl = 1 := by
    show float64 (float64 (wrap (1 * 10 ^ 9)) / float64 (10 ^ 9 : ℤ)) = 1
    decide +kernel
  have hhalf : maxDelay 1 = some (5 * 10 ^ 8) := by decide +kernel
  obtain ⟨⟨rate, burst', delay, _, _, _⟩, ttl'⟩ := l
  simp only at hrate hburst hdelay httl
  subst hrate hburst hdelay httl
  simp only [new, hrtl, hhalf]
  norm_num [ttl]

/-- Three requests, and three more two seconds later, when the bucket is gone: six within two
    seconds, where five and a half are allowed. -/
theorem full_again_too_soon : new ⟨1, 0, 3⟩ = .ok (some threeAtOnce) ∧
    (count 0 (0 + 2) (admittedOf threeAtOnce "10.0.0.1" (fun _ => none) [(0, "10.0.0.1"),
      (0, "10.0.0.1"), (0, "10.0.0.1"), (2, "10.0.0.1"), (2, "10.0.0.1"), (2, "10.0.0.1")]) : ℚ) >
      threeAtOnce.burst + threeAtOnce.rate * (2 + threeAtOnce.maxDelay) := by
  constructor
  · exact new_of_average_one rfl (by norm_num [threeAtOnce]) rfl rfl
  · decide +kernel

/-- One request per second, and one at once. -/
def oneAtOnce : Limiter :=
  { threeAtOnce with burst := 1, burst_nonneg := threeAtOnce.rate_nonneg }

theorem new_oneAtOnce : new ⟨1, 0, 1⟩ = .ok (some oneAtOnce) :=
  new_of_average_one rfl (by norm_num [oneAtOnce]) rfl rfl

theorem window_bound_single : new ⟨1, 0, 1⟩ = .ok (some oneAtOnce) ∧ oneAtOnce.Bounded := by
  refine ⟨new_oneAtOnce, (window_bound_iff ⟨1, 0, 1⟩ oneAtOnce new_oneAtOnce).mpr ?_⟩
  norm_num [oneAtOnce, threeAtOnce]

end Ingress.RateLimiter
