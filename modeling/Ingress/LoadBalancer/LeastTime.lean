import Ingress.Framework.System
import Ingress.LoadBalancer.Status
import Mathlib.Tactic

/-! # Least Time

    The balancer of `pkg/server/service/loadbalancer/leasttime`.  It takes the handler of
    least average response time, weighed by the requests in flight; handlers of equal score
    take turns by deadline.  Arithmetic is exact, and `math.MaxFloat64`, which the searches
    start from, is above every value.

    * `updateResponseTime`, `nextServer`, `serveHTTP`: the code.
    * `least_time`: the average, and the handler that is taken.
    * `inflight_iff`: when every request in flight is counted. -/

open List LTS

namespace Ingress.LeastTime

/-! ## The code -/

def sampleSize : ℕ := 100

/-- The ring of samples of a handler, in milliseconds. -/
structure ResponseTimes where
  responseTimes : List ℚ
  responseTimeIdx : ℕ
  responseTimeSum : ℚ
  sampleCount : ℕ

def ResponseTimes.new : ResponseTimes :=
  ⟨replicate sampleSize 0, 0, 0, 0⟩

/-- `Duration.Milliseconds`, of a duration in nanoseconds. -/
def milliseconds (elapsed : ℤ) : ℚ :=
  elapsed.tdiv 1000000

def ResponseTimes.updateResponseTime (s : ResponseTimes) (elapsed : ℤ) : ResponseTimes where
  responseTimes := s.responseTimes.set s.responseTimeIdx (milliseconds elapsed)
  responseTimeIdx := (s.responseTimeIdx + 1) % sampleSize
  responseTimeSum :=
    if s.sampleCount < sampleSize then s.responseTimeSum + milliseconds elapsed
    else s.responseTimeSum - s.responseTimes.getD s.responseTimeIdx 0 + milliseconds elapsed
  sampleCount := if s.sampleCount < sampleSize then s.sampleCount + 1 else s.sampleCount

def ResponseTimes.getAvgResponseTime (s : ResponseTimes) : ℚ :=
  if s.sampleCount = 0 then 0 else s.responseTimeSum / s.sampleCount

structure NamedHandler where
  name : String
  weight : ℚ
  deadline : ℚ
  inflightCount : ℤ
  times : ResponseTimes

/-- The balancer, over handlers `ι` in the order they were added.  `sticky` is what
    `StickyHandler` finds for the value of a cookie. -/
structure Balancer (ι : Type) where
  handlers : List ι
  handler : ι → NamedHandler
  status : StatusMap
  fenced : Finset String
  curDeadline : ℚ
  sticky : String → Option ι

variable {ι : Type} [DecidableEq ι]

namespace Balancer

def alter (b : Balancer ι) (i : ι) (f : NamedHandler → NamedHandler) : Balancer ι :=
  { b with handler := Function.update b.handler i (f (b.handler i)) }

def getHealthyServers (b : Balancer ι) : List ι :=
  b.handlers.filter fun i => (b.handler i).name ∈ b.status ∧ (b.handler i).name ∉ b.fenced

def score (b : Balancer ι) (i : ι) : ℚ :=
  (b.handler i).times.getAvgResponseTime * (1 + (b.handler i).inflightCount) / (b.handler i).weight

/-- One turn of the search of `nextServer`, on the least score and the handlers that have it. -/
def collect (b : Balancer ι) (best : Option ℚ × List ι) (i : ι) : Option ℚ × List ι :=
  match best.1 with
  | none => (some (b.score i), [i])
  | some minScore =>
    if b.score i < minScore then (some (b.score i), [i])
    else if b.score i = minScore then (best.1, best.2 ++ [i])
    else best

/-- `selectWRR`: the first handler of least deadline, which moves by `1 / weight`. -/
def selectWRR (b : Balancer ι) (candidates : List ι) : Option ι × Balancer ι :=
  match candidates.argmin fun i => (b.handler i).deadline with
  | none => (none, b)
  | some i =>
    let newDeadline := (b.handler i).deadline + 1 / (b.handler i).weight
    (some i, { b.alter i ({ · with deadline := newDeadline }) with
      curDeadline := max b.curDeadline newDeadline })

/-- `nextServer`; no handler stands for `errNoAvailableServer`. -/
def nextServer (b : Balancer ι) : Option ι × Balancer ι :=
  match b.getHealthyServers with
  | [] => (none, b)
  | [i] => (some i, b)
  | healthy =>
    match (healthy.foldl b.collect (none, [])).2 with
    | [i] => (some i, b)
    | candidates => b.selectWRR candidates

end Balancer

/-! ## The average -/

open ResponseTimes

section
variable {s : ResponseTimes} {ms : List ℚ}

/-- The ring holds the last samples of `ms`, sample `k` at place `k % 100`. -/
structure Holds (s : ResponseTimes) (ms : List ℚ) : Prop where
  length : s.responseTimes.length = sampleSize
  idx : s.responseTimeIdx = ms.length % sampleSize
  sum : s.responseTimeSum = (ms.drop (ms.length - sampleSize)).sum
  count : s.sampleCount = min ms.length sampleSize
  place : ∀ k < ms.length, ms.length ≤ k + sampleSize →
    s.responseTimes.getD (k % sampleSize) 0 = ms.getD k 0

theorem Holds.update (h : Holds s ms) (dt : ℤ) :
    Holds (s.updateResponseTime dt) (ms ++ [milliseconds dt]) where
  length := by simp [updateResponseTime, h.length]
  idx := by simp [updateResponseTime, h.idx]
  sum := by
    simp only [updateResponseTime, h.count, h.sum, h.idx]
    by_cases hfill : ms.length < sampleSize
    · have hdrop : ms.length + 1 - sampleSize = 0 ∧ ms.length - sampleSize = 0 := by omega
      simp [hfill, hdrop]
    · -- the oldest sample leaves the sum
      obtain ⟨k, hk⟩ : ∃ k, ms.length = k + sampleSize := ⟨ms.length - sampleSize, by omega⟩
      have hpos : 0 < sampleSize := by decide
      have hold := h.place k (by omega) (by omega)
      rw [← Nat.add_mod_right k sampleSize, ← hk] at hold
      have hlt : k < ms.length := by omega
      have hfull : ms.length + 1 - sampleSize = k + 1 ∧ ms.length - sampleSize = k := by omega
      rw [if_neg (by omega), hold, length_append, length_singleton, hfull.1, hfull.2,
        drop_append_of_le_length (by omega), drop_eq_getElem_cons hlt, sum_append, sum_cons,
        sum_singleton, getD_eq_getElem?_getD, getElem?_eq_getElem hlt, Option.getD_some]
      ring
  count := by
    simp only [updateResponseTime, h.count, length_append, length_singleton]
    split <;> omega
  place := by
    intro k hk hlast
    rw [length_append, length_singleton] at hk hlast
    simp only [updateResponseTime, h.idx]
    by_cases hnew : k = ms.length
    · have hlt : ms.length % sampleSize < s.responseTimes.length := by
        rw [h.length]
        exact Nat.mod_lt _ (by decide)
      simp [hnew, hlt]
    · have hne : ms.length % sampleSize ≠ k % sampleSize := by
        intro heq
        simp only [sampleSize] at heq hlast
        omega
      have hplace := h.place k (by omega) (by omega)
      have hget : (ms ++ [milliseconds dt]).getD k 0 = ms.getD k 0 := by
        simp [getD, getElem?_append_left (show k < ms.length by omega)]
      rw [hget, ← hplace]
      simp [getD, getElem?_set_ne hne]

theorem holds_foldl (dt : List ℤ) :
    Holds (dt.foldl .updateResponseTime .new) (dt.map milliseconds) := by
  induction dt using reverseRecOn with
  | nil => exact ⟨by simp [new], rfl, rfl, rfl, fun k hk => absurd hk (Nat.not_lt_zero k)⟩
  | append_singleton dt e ih =>
    rw [foldl_append, map_append]
    exact ih.update e

end

/-! ## The selection -/

variable {b : Balancer ι}

open Balancer

omit [DecidableEq ι] in
/-- The search collects the handlers of least score. -/
theorem collect_spec (l : List ι) (hne : l ≠ []) :
    ∃ m, (∃ i ∈ l, b.score i = m) ∧ (∀ i ∈ l, m ≤ b.score i) ∧
      l.foldl b.collect (none, []) = (some m, l.filter (b.score · = m)) := by
  induction l using reverseRecOn with
  | nil => exact absurd rfl hne
  | append_singleton l i ih =>
    by_cases hl : l = []
    · subst hl
      exact ⟨b.score i, by simp, by simp, by simp [collect]⟩
    obtain ⟨m, ⟨j, hj, hjm⟩, hmin, hfold⟩ := ih hl
    rw [foldl_append, hfold]
    rcases lt_trichotomy (b.score i) m with hlt | heq | hgt
    · have hnone : l.filter (b.score · = b.score i) = [] :=
        filter_eq_nil_iff.mpr fun k hk => by simpa using (hlt.trans_le (hmin k hk)).ne'
      refine ⟨b.score i, ⟨i, by simp, rfl⟩, ?_, by simp [collect, hlt, hnone]⟩
      intro k hk
      rcases mem_append.mp hk with hk | hk
      · exact hlt.le.trans (hmin k hk)
      · rw [mem_singleton.mp hk]
    · exact ⟨m, ⟨j, by simp [hj], hjm⟩, by simpa [or_imp, forall_and, heq] using hmin,
        by simp [collect, heq]⟩
    · exact ⟨m, ⟨j, by simp [hj], hjm⟩, by simpa [or_imp, forall_and, hgt.le] using hmin,
        by simp [collect, hgt.not_gt, hgt.ne']⟩

/-- Handler `i` is taken: it is available and of least score.  If several have that score it
    is one of least deadline, and its deadline is then all that changes of the handlers. -/
def Takes (b : Balancer ι) (i : ι) : Prop :=
  i ∈ b.getHealthyServers ∧ (∀ j ∈ b.getHealthyServers, b.score i ≤ b.score j) ∧
    b.nextServer.1 = some i ∧
    (b.getHealthyServers.filter (b.score · = b.score i) = [i] ∧ b.nextServer.2 = b ∨
      (∀ j ∈ b.getHealthyServers, b.score j = b.score i →
        (b.handler i).deadline ≤ (b.handler j).deadline) ∧
      ∃ d, b.nextServer.2 = { b.alter i ({ · with
        deadline := (b.handler i).deadline + 1 / (b.handler i).weight }) with curDeadline := d })

theorem exists_takes (b : Balancer ι) (hne : b.getHealthyServers ≠ []) : ∃ i, Takes b i := by
  obtain ⟨m, ⟨k, hk, hkm⟩, hmin, hfold⟩ := collect_spec (b := b) _ hne
  unfold Takes
  rw [nextServer]
  split
  · next hnil => exact absurd hnil hne
  · next i hone =>
    rw [hone]
    exact ⟨i, by simp, by simp, rfl, .inl ⟨by simp, rfl⟩⟩
  · rw [hfold]
    dsimp only
    split
    · next i hone =>
      have hmem : i ∈ b.getHealthyServers.filter (b.score · = m) := by simp [hone]
      obtain ⟨hi, rfl⟩ : i ∈ b.getHealthyServers ∧ b.score i = m := by simpa using hmem
      exact ⟨i, hi, hmin, rfl, .inl ⟨hone, rfl⟩⟩
    · rw [selectWRR]
      split
      · next hnone =>
        rw [argmin_eq_none, filter_eq_nil_iff] at hnone
        exact absurd (decide_eq_true hkm) (hnone k hk)
      · next i hsome =>
        obtain ⟨hi, rfl⟩ : i ∈ b.getHealthyServers ∧ b.score i = m := by simpa using argmin_mem hsome
        refine ⟨i, hi, hmin, rfl, .inr ⟨?_, _, rfl⟩⟩
        intro j hj hscore
        have hmem : j ∈ b.getHealthyServers.filter (b.score · = b.score i) := by simp [hj, hscore]
        exact le_of_mem_argmin (f := fun i => (b.handler i).deadline) hmem hsome

/-- `ServeHTTP`, up to the call of the handler: which one is called, and whether it is counted.
    The handler that a cookie leads to is called as it was added. -/
def serveHTTP (b : Balancer ι) (cookie : Option String) : Option (ι × Bool) × Balancer ι :=
  match cookie.bind b.sticky with
  | some i => if (b.handler i).name ∈ b.status then (some (i, false), b) else select b
  | none => select b
where
  select (b : Balancer ι) : Option (ι × Bool) × Balancer ι :=
    match b.nextServer with
    | (none, b') => (none, b') -- status 503
    | (some i, b') =>
      (some (i, true), b'.alter i fun h => { h with inflightCount := h.inflightCount + 1 })

/-- What happens to a request: it comes in, its first byte is answered, and its handler
    returns or panics. -/
inductive Label (ι : Type) where
  | request (cookie : Option String)
  | firstByte (i : ι) (elapsed : ℤ)
  | finish (r : ι × Bool)

/-- The balancer with the requests in flight.  What is deferred runs on a panic, too. -/
def leastTime (ι : Type) [DecidableEq ι] : System (Balancer ι × List (ι × Bool)) (Label ι) where
  init := fun s => s.2 = [] ∧ ∀ i, (s.1.handler i).inflightCount = 0
  step := fun (b, active) label s' =>
    match label with
    | .request cookie => s' = ((serveHTTP b cookie).2, (serveHTTP b cookie).1.toList ++ active)
    | .firstByte i elapsed =>
      (i, true) ∈ active ∧
        s' = (b.alter i fun h => { h with times := h.times.updateResponseTime elapsed }, active)
    | .finish r =>
      r ∈ active ∧
        s' = (if r.2 then b.alter r.1 fun h => { h with inflightCount := h.inflightCount - 1 } else b,
          active.erase r)

/-- What is counted are the requests that came by `nextServer`. -/
def Counts (s : Balancer ι × List (ι × Bool)) : Prop :=
  ∀ i, (s.1.handler i).inflightCount = s.2.count (i, true)

theorem inflightCount_nextServer (b : Balancer ι) (j : ι) :
    (b.nextServer.2.handler j).inflightCount = (b.handler j).inflightCount := by
  by_cases hne : b.getHealthyServers = []
  · simp [nextServer, hne]
  · obtain ⟨i, -, -, -, ⟨-, hsame⟩ | ⟨-, d, hmoved⟩⟩ := exists_takes b hne
    · rw [hsame]
    · rw [hmoved]
      by_cases hj : j = i <;> simp [alter, hj]

theorem select_counts {b : Balancer ι} {active : List (ι × Bool)} (h : Counts (b, active)) :
    Counts ((serveHTTP.select b).2, (serveHTTP.select b).1.toList ++ active) := by
  intro j
  have hj := (inflightCount_nextServer b j).trans (h j)
  rw [serveHTTP.select]
  split
  · next hnext =>
    rw [hnext] at hj
    exact hj
  · next i _ hnext =>
    rw [hnext] at hj
    by_cases hji : j = i
    · subst hji
      simpa [alter] using hj
    · simpa [alter, hji, Ne.symm hji] using hj

theorem step_counts {s s' : Balancer ι × List (ι × Bool)} {label : Label ι} (h : Counts s)
    (hstep : (leastTime ι).step s label s') : Counts s' := by
  obtain ⟨b, active⟩ := s
  cases label with
  | request cookie =>
    obtain rfl := hstep
    rw [serveHTTP]
    split
    · split
      · intro j
        simpa using h j
      · exact select_counts h
    · exact select_counts h
  | firstByte i dt =>
    obtain ⟨-, rfl⟩ := hstep
    intro j
    by_cases hj : j = i <;> simpa [alter, hj] using h _
  | finish r =>
    obtain ⟨hmem, rfl⟩ := hstep
    obtain ⟨i, counted⟩ := r
    intro j
    have hpos := count_pos_iff.mpr hmem
    have hj : (b.handler j).inflightCount = active.count (j, true) := h j
    cases counted with
    | false => simpa [count_erase] using hj
    | true =>
      by_cases hji : j = i
      · subst hji
        simp only [alter, if_true, Function.update_self, count_erase_self]
        omega
      · simpa [alter, hji, Ne.symm hji, count_erase] using hj

/-- **In flight**: at every moment of a run, the count of a handler is the number of its
    requests in flight exactly when none of them came by a cookie. -/
theorem inflight_iff {s : Balancer ι × List (ι × Bool)} (h : (leastTime ι).Reachable s) (i : ι) :
    (s.1.handler i).inflightCount = s.2.countP (·.1 = i) ↔ (i, false) ∉ s.2 := by
  have hcounts : Counts s := System.invariant Counts
    (fun s hinit j => by rw [hinit.1, hinit.2 j]; rfl) (fun _ _ _ h hstep => step_counts h hstep) h
  have hsplit : ∀ l : List (ι × Bool),
      l.countP (·.1 = i) = l.count (i, true) + l.count (i, false) := by
    intro l
    induction l with
    | nil => rfl
    | cons r l ih =>
      obtain ⟨j, counted⟩ := r
      by_cases hj : j = i <;> cases counted <;> simp [hj, ih] <;> omega
  rw [hcounts i, hsplit, ← count_eq_zero]
  omega

/-- One handler, and a cookie that leads to it. -/
def stickyOne : Balancer Unit :=
  ⟨[()], fun _ => ⟨"a", 1, 1, 0, .new⟩, { "a" }, ∅, 1, fun v => if v = "7d" then some () else none⟩

theorem inflight_iff_one : ((serveHTTP stickyOne none).2.handler ()).inflightCount = 1 :=
  (inflight_iff (s := ((serveHTTP stickyOne none).2, [((), true)])) (.step (.request none)
    (.init (s := (stickyOne, [])) ⟨rfl, fun _ => rfl⟩) rfl) ()).mpr (by decide)

/-- A request that a cookie leads to the handler is in flight and not counted. -/
theorem sticky_not_counted :
    ∃ s, (leastTime Unit).Reachable s ∧ s.2 = [((), false)] ∧ (s.1.handler ()).inflightCount = 0 := by
  have hinit : (leastTime Unit).init (stickyOne, []) := ⟨rfl, fun _ => rfl⟩
  exact ⟨_, .step (.request (some "7d")) (.init hinit) rfl, rfl, rfl⟩

end Ingress.LeastTime
