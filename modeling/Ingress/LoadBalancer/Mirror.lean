import Ingress.Framework.System
import Mathlib.Tactic

/-! # Mirroring

    `pkg/server/service/loadbalancer/mirror`: requests are counted, and a mirror gets a request
    while it has had less than its percentage of those counted so far.

    The counter of all requests and the counter of each mirror have a mutex each.  A request is
    counted first, and then takes the locks of the mirrors one after the other, with the number
    it was counted as.

    * `Mirroring`, `addMirror`, `getActiveMirrors`: the code.
    * `mirroring`: the interleavings of any number of requests, one label per locked section.
    * `share`: how many requests are a percentage of some.
    * `mirrors_its_share`: what a mirror gets. -/

open List LTS Nat

namespace Ingress.Mirror

/-! ## The code -/

structure MirrorHandler (H : Type) where
  handler : H
  percent : ℕ
  count : UInt64
  percent_le : percent ≤ 100

/-- `Mirroring`: its mirrors and the counter of its requests. -/
structure Mirroring (H : Type) where
  mirrorHandlers : List (MirrorHandler H)
  total : UInt64

variable {H : Type}

def new : Mirroring H := ⟨[], 0⟩

def Mirroring.addMirror (m : Mirroring H) (handler : H) (percent : ℤ) :
    Except String (Mirroring H) :=
  if h : percent < 0 ∨ percent > 100 then .error "percent must be between 0 and 100"
  else .ok { m with mirrorHandlers := m.mirrorHandlers ++ [⟨handler, percent.toNat, 0, by omega⟩] }

/-- The services that `New` and `AddMirror` build. -/
inductive Built : Mirroring H → Prop where
  | new : Built new
  | addMirror {m m' : Mirroring H} {handler : H} {percent : ℤ} :
      Built m → m.addMirror handler percent = .ok m' → Built m'

def Mirroring.inc (m : Mirroring H) : Mirroring H :=
  { m with total := m.total + 1 }

/-- The test under the lock of a mirror. -/
def MirrorHandler.wants (h : MirrorHandler H) (total : UInt64) : Bool :=
  h.count * 100 < total * UInt64.ofNat h.percent

/-- The locked section of a mirror. -/
def MirrorHandler.take (h : MirrorHandler H) (total : UInt64) : MirrorHandler H :=
  if h.wants total then { h with count := h.count + 1 } else h

/-- `getActiveMirrors`: the mirrors, by their places in the list, and the counters. -/
def Mirroring.getActiveMirrors (m : Mirroring H) : List ℕ × Mirroring H :=
  let m := m.inc
  (m.mirrorHandlers.findIdxs (·.wants m.total),
    { m with mirrorHandlers := m.mirrorHandlers.map (·.take m.total) })

/-- The mirrors of `n` requests that are handled one after the other. -/
def Mirroring.requests (m : Mirroring H) : ℕ → List (List ℕ) × Mirroring H
  | 0 => ([], m)
  | n + 1 =>
    let (mirrors, m') := (m.requests n).2.getActiveMirrors
    ((m.requests n).1 ++ [mirrors], m')

/-! ## Interleavings -/

/-- A call of `getActiveMirrors`: the number of its request, and the mirrors it has so far.
    `next` is the mirror whose lock comes next. -/
inductive Call where
  | looping (total : UInt64) (next : ℕ) (mirrors : List ℕ)
  | returned (total : UInt64) (mirrors : List ℕ)
  deriving DecidableEq, Repr

/-- The number of the request. -/
def Call.total : Call → UInt64
  | .looping total _ _ => total
  | .returned total _ => total

/-- The mirrors the request gets. -/
def Call.mirrors : Call → List ℕ
  | .looping _ _ mirrors => mirrors
  | .returned _ mirrors => mirrors

/-- The counters, and the calls in the order in which their requests were counted. -/
structure State (H : Type) where
  mirroring : Mirroring H
  calls : List Call

/-- The locked sections, and the return of a call. -/
inductive Label where
  | inc
  | take (i : ℕ)
  | ret (i : ℕ)
  deriving DecidableEq, Repr

/-- A request is counted. -/
def State.inc (s : State H) : State H where
  mirroring := s.mirroring.inc
  calls := s.calls ++ [.looping s.mirroring.inc.total 0 []]

/-- A request is at the lock of a mirror. -/
def State.take (s : State H) (i : ℕ) (total : UInt64) (next : ℕ) (mirrors : List ℕ)
    (h : MirrorHandler H) : State H where
  mirroring := { s.mirroring with
    mirrorHandlers := s.mirroring.mirrorHandlers.set next (h.take total) }
  calls := s.calls.set i
    (.looping total (next + 1) (if h.wants total then mirrors ++ [next] else mirrors))

/-- One step of one request. -/
def State.step (s : State H) : Label → State H → Prop
  | .inc, s' => s' = s.inc
  | .take i, s' => ∃ total next mirrors h, s.calls[i]? = some (.looping total next mirrors) ∧
      s.mirroring.mirrorHandlers[next]? = some h ∧ s' = s.take i total next mirrors h
  | .ret i, s' => ∃ total next mirrors, s.calls[i]? = some (.looping total next mirrors) ∧
      s.mirroring.mirrorHandlers.length ≤ next ∧
      s' = { s with calls := s.calls.set i (.returned total mirrors) }

/-- The interleavings. -/
def mirroring (H : Type) : System (State H) Label where
  init := fun s => Built s.mirroring ∧ s.calls = []
  step := State.step

/-- Which request takes the lock of which mirror. -/
def locks (s : State H) : Label → List (ℕ × ℕ)
  | .take i =>
    match s.calls[i]? with
    | some (.looping _ next _) => [(i, next)]
    | _ => []
  | _ => []

/-- The requests that have taken the lock of a mirror, in order. -/
def order (k : ℕ) (log : List (ℕ × ℕ)) : List ℕ :=
  (log.filter (·.2 = k)).map Prod.fst

/-- No request, numbered from `0` as it was counted, finds more requests before it than were
    counted before it. -/
def InTurn (order : List ℕ) : Prop :=
  ∀ (j i : ℕ), order[j]? = some i → j ≤ i

/-- The mirror gets the request. -/
def Mirrored (s : State H) (k i : ℕ) : Prop :=
  ∃ call, s.calls[i]? = some call ∧ k ∈ call.mirrors

/-! ## Shares -/

/-- `percent` of `n` requests. -/
def share (n percent : ℕ) : ℕ :=
  ⌈(n * percent : ℚ) / 100⌉₊

theorem lt_share_iff {c n percent : ℕ} : c < share n percent ↔ c * 100 < n * percent := by
  rw [share, lt_ceil, lt_div_iff₀ (by norm_num)]
  exact_mod_cast Iff.rfl

theorem share_mono {n n' : ℕ} (percent : ℕ) (h : n ≤ n') : share n percent ≤ share n' percent := by
  refine ceil_mono (div_le_div_of_nonneg_right ?_ (by norm_num))
  exact_mod_cast mul_le_mul_right percent h

theorem share_zero (percent : ℕ) : share 0 percent = 0 := by
  simp [share]

theorem share_hundred (n : ℕ) : share n 100 = n := by
  simp [share]

variable {n percent : ℕ}

/-- One more request is at most one more for the mirror. -/
theorem share_succ_le (h : percent ≤ 100) : share (n + 1) percent ≤ share n percent + 1 := by
  by_contra hlt
  have hnext : share n percent + 1 < share (n + 1) percent := not_le.mp hlt
  have hthis : ¬ share n percent < share n percent := lt_irrefl _
  rw [lt_share_iff] at hnext hthis
  nlinarith

/-- What a mirror has had after one more request. -/
theorem share_step (h : percent ≤ 100) :
    (if share n percent < share (n + 1) percent then share n percent + 1 else share n percent) =
      share (n + 1) percent := by
  have hmono : share n percent ≤ share (n + 1) percent := share_mono percent (le_succ n)
  have hsucc := share_succ_le (n := n) h
  split <;> omega

theorem share_le (h : percent ≤ 100) : share n percent ≤ n := by
  induction n with
  | zero => exact (share_zero percent).le
  | succ n ih =>
    have hstep := share_succ_le (n := n) h
    omega

/-! ## The locked section -/

variable {m : Mirroring H}

theorem Built.zero (hm : Built m) : m.total = 0 ∧ ∀ h ∈ m.mirrorHandlers, h.count = 0 := by
  induction hm with
  | new => exact ⟨rfl, nofun⟩
  | addMirror _ hadd ih =>
    unfold Mirroring.addMirror at hadd
    split at hadd
    · cases hadd
    · cases hadd
      refine ⟨ih.1, fun h hh => ?_⟩
      rcases mem_append.mp hh with hold | hnew
      · exact ih.2 h hold
      · rw [mem_singleton.mp hnew]

section
variable {h : MirrorHandler H} {total : UInt64} {n : ℕ}

/-- The test, while the counters do not overflow. -/
theorem MirrorHandler.wants_iff (hn : n * 100 < 2 ^ 64) (hcount : h.count.toNat ≤ n)
    (htotal : total.toNat ≤ n) :
    h.wants total = true ↔ h.count.toNat < share total.toNat h.percent := by
  have hpct := h.percent_le
  have hleft : h.count.toNat * 100 < 2 ^ 64 := by omega
  have hright : total.toNat * h.percent < 2 ^ 64 := by nlinarith
  have hofNat : (UInt64.ofNat h.percent).toNat = h.percent :=
    UInt64.toNat_ofNat_of_lt' (lt_of_le_of_lt hpct (by decide))
  have hhundred : (100 : UInt64).toNat = 100 := rfl
  rw [wants, decide_eq_true_iff, UInt64.lt_iff_toNat_lt, UInt64.toNat_mul, UInt64.toNat_mul, hofNat,
    hhundred, mod_eq_of_lt hright, mod_eq_of_lt hleft, lt_share_iff]

@[simp] theorem MirrorHandler.take_percent (h : MirrorHandler H) (total : UInt64) :
    (h.take total).percent = h.percent := by
  unfold take
  split <;> rfl

theorem MirrorHandler.take_count (hn : n * 100 < 2 ^ 64) (hcount : h.count.toNat ≤ n) :
    (h.take total).count.toNat =
      if h.wants total then h.count.toNat + 1 else h.count.toNat := by
  unfold take
  split
  · have hone : (1 : UInt64).toNat = 1 := rfl
    rw [UInt64.toNat_add, hone, mod_eq_of_lt (by omega)]
  · rfl

end

/-! ## One request after the other -/

open MirrorHandler

/-- After `n` requests every mirror has had its share of them. -/
theorem requests_spec (hm : Built m) {n : ℕ} (hn : n * 100 < 2 ^ 64) :
    (m.requests n).2.total.toNat = n ∧ ∀ k h, m.mirrorHandlers[k]? = some h →
      ((m.requests n).1.countP (k ∈ ·)) = share n h.percent ∧
      ∃ h', (m.requests n).2.mirrorHandlers[k]? = some h' ∧ h'.percent = h.percent ∧
        h'.count.toNat = share n h.percent := by
  induction n with
  | zero =>
    refine ⟨by rw [Mirroring.requests, hm.zero.1]; rfl, fun k h hk => ?_⟩
    rw [share_zero]
    refine ⟨rfl, h, hk, rfl, ?_⟩
    rw [hm.zero.2 h (mem_of_getElem? hk)]
    rfl
  | succ n ih =>
    obtain ⟨htotal, hmirrors⟩ := ih (by omega)
    have htotal' : ((m.requests n).2.total + 1).toNat = n + 1 := by
      have hone : (1 : UInt64).toNat = 1 := rfl
      rw [UInt64.toNat_add, hone, htotal, mod_eq_of_lt (by omega)]
    refine ⟨htotal', fun k h hk => ?_⟩
    obtain ⟨hcountP, h', hk', hpct, hcount⟩ := hmirrors k h hk
    have hle : h'.count.toNat ≤ n + 1 := by
      have hshare := share_le (n := n) h.percent_le
      omega
    -- the mirror gets this request when its share grows
    have hwants := MirrorHandler.wants_iff hn hle htotal'.le
    rw [hcount, htotal', hpct] at hwants
    have hmem : k ∈ ((m.requests n).2.getActiveMirrors).1 ↔
        share n h.percent < share (n + 1) h.percent := by
      rw [← hwants]
      have hlt := (List.getElem?_eq_some_iff.mp hk').1
      have hget := (List.getElem?_eq_some_iff.mp hk').2
      show k ∈ (m.requests n).2.mirrorHandlers.findIdxs _ ↔ _
      rw [mem_findIdxs_iff_pos_getElem hlt]
      exact iff_of_eq (congrArg (fun x => wants x _ = true) hget)
    have hstep := share_step (n := n) h.percent_le
    refine ⟨?_, h'.take ((m.requests n).2.total + 1), ?_, ?_, ?_⟩
    · show ((m.requests n).1 ++ [((m.requests n).2.getActiveMirrors).1]).countP (k ∈ ·) = _
      rw [countP_append, hcountP, countP_singleton, ← hstep]
      simp only [decide_eq_true_eq, hmem]
      split <;> rfl
    · show ((m.requests n).2.mirrorHandlers.map _)[k]? = _
      rw [getElem?_map, hk']
      rfl
    · rw [take_percent, hpct]
    · rw [take_count hn hle, ← hstep, hcount]
      exact if_congr hwants rfl rfl

/-! ## All interleavings -/

theorem order_append (k : ℕ) (log : List (ℕ × ℕ)) (i next : ℕ) :
    order k (log ++ [(i, next)]) = if next = k then order k log ++ [i] else order k log := by
  by_cases hk : next = k <;> simp [order, hk]

variable {s : State H} {i : ℕ}

/-- A call is an old one, or the one that starts. -/
theorem calls_inc {call : Call} :
    s.inc.calls[i]? = some call ↔ s.calls[i]? = some call ∨
      i = s.calls.length ∧ call = .looping s.inc.mirroring.total 0 [] := by
  show (s.calls ++ [.looping s.inc.mirroring.total 0 []])[i]? = some call ↔ _
  rcases lt_trichotomy i s.calls.length with hlt | rfl | hgt
  · rw [getElem?_append_left hlt]
    simp [hlt.ne]
  · simp [eq_comm]
  · simp [hgt.ne', getElem?_eq_none, hgt.le, succ_le_iff.mpr hgt]

theorem mirrored_inc {k : ℕ} : Mirrored s.inc k i ↔ Mirrored s k i := by
  constructor
  · rintro ⟨call, hcall, hk⟩
    rcases calls_inc.mp hcall with hold | ⟨_, rfl⟩
    · exact ⟨call, hold, hk⟩
    · cases hk
  · rintro ⟨call, hcall, hk⟩
    exact ⟨call, calls_inc.mpr (.inl hcall), hk⟩

/-- A call that goes on keeps the mirrors it has. -/
theorem mirrored_set {call call' : Call} (hi : s.calls[i]? = some call) {k j : ℕ} :
    Mirrored ⟨m, s.calls.set i call'⟩ k j ↔
      if j = i then k ∈ call'.mirrors else Mirrored s k j := by
  have hlt := (List.getElem?_eq_some_iff.mp hi).1
  unfold Mirrored
  by_cases hj : j = i
  · simp [hj, hlt]
  · simp [hj, List.getElem?_set_ne (Ne.symm hj)]

/-- What holds of the counters and of the calls, with the locks taken so far. -/
structure Inv (s : State H) (log : List (ℕ × ℕ)) : Prop where
  total : s.mirroring.total.toNat = s.calls.length
  number : ∀ (i : ℕ) (call : Call), s.calls[i]? = some call → call.total.toNat = i + 1
  bound : ∀ (k : ℕ) (h : MirrorHandler H), s.mirroring.mirrorHandlers[k]? = some h →
    h.count.toNat ≤ share s.calls.length h.percent
  known : ∀ k, ∀ i ∈ order k log, i < s.calls.length
  looping : ∀ (i : ℕ) total next mirrors, s.calls[i]? = some (.looping total next mirrors) →
    ∀ k, i ∈ order k log ↔ k < next
  listed : ∀ (i : ℕ) total next mirrors, s.calls[i]? = some (.looping total next mirrors) →
    ∀ k ∈ mirrors, k < next
  returned : ∀ (i : ℕ) total mirrors, s.calls[i]? = some (.returned total mirrors) →
    ∀ k < s.mirroring.mirrorHandlers.length, i ∈ order k log
  full : ∀ (k : ℕ) (h : MirrorHandler H), s.mirroring.mirrorHandlers[k]? = some h →
    h.percent = 100 →
    ((∀ i ∈ order k log, Mirrored s k i) ↔ InTurn (order k log)) ∧
    ((∀ i ∈ order k log, Mirrored s k i) → h.count.toNat = (order k log).length)

theorem inv_init (hs : (mirroring H).init s) : Inv s [] := by
  obtain ⟨hbuilt, hcalls⟩ := hs
  have hcount : ∀ (k : ℕ) h, s.mirroring.mirrorHandlers[k]? = some h → h.count.toNat = 0 := by
    intro k h hk
    rw [hbuilt.zero.2 h (mem_of_getElem? hk)]
    rfl
  constructor
  case total => rw [hbuilt.zero.1, hcalls]; rfl
  case bound => intro k h hk; rw [hcount k h hk]; exact zero_le _
  case full =>
    intro k h hk _
    rw [hcount k h hk]
    simp [order, InTurn]
  all_goals simp [hcalls, order]

section
variable {s : State H} {log : List (ℕ × ℕ)}

theorem Inv.inc (hs : Inv s log) (hn : s.inc.calls.length * 100 < 2 ^ 64) : Inv s.inc log := by
  have hlen : s.inc.calls.length = s.calls.length + 1 := by simp [State.inc]
  have htotal : s.inc.mirroring.total.toNat = s.calls.length + 1 := by
    have hone : (1 : UInt64).toNat = 1 := rfl
    show (s.mirroring.total + 1).toNat = _
    rw [UInt64.toNat_add, hone, hs.total, mod_eq_of_lt (by omega)]
  constructor
  case total => rw [htotal, hlen]
  case number =>
    intro i call hi
    rcases calls_inc.mp hi with hold | ⟨rfl, rfl⟩
    · exact hs.number i call hold
    · exact htotal
  case bound =>
    intro k h hk
    exact (hs.bound k h hk).trans (share_mono _ (by omega))
  case known =>
    intro k i hi
    have := hs.known k i hi
    omega
  case looping =>
    intro i total next mirrors hi k
    rcases calls_inc.mp hi with hold | ⟨rfl, hnew⟩
    · exact hs.looping i total next mirrors hold k
    · cases hnew
      simp only [not_lt_zero, iff_false]
      intro hmem
      exact lt_irrefl _ (hs.known k _ hmem)
  case listed =>
    intro i total next mirrors hi
    rcases calls_inc.mp hi with hold | ⟨_, hnew⟩
    · exact hs.listed i total next mirrors hold
    · cases hnew
      simp
  case returned =>
    intro i total mirrors hi
    rcases calls_inc.mp hi with hold | ⟨_, hnew⟩
    · exact hs.returned i total mirrors hold
    · cases hnew
  case full =>
    intro k h hk hp
    simp only [mirrored_inc]
    exact hs.full k h hk hp

/-- An element of a list after one was replaced. -/
theorem set_cases {α : Type} {as : List α} {j : ℕ} {a b : α} (h : (as.set i a)[j]? = some b) :
    j = i ∧ b = a ∨ j ≠ i ∧ as[j]? = some b := by
  by_cases hij : i = j
  · rw [hij, getElem?_set_self'] at h
    obtain ⟨_, _, rfl⟩ := Option.map_eq_some_iff.mp h
    exact .inl ⟨hij.symm, rfl⟩
  · rw [getElem?_set_ne hij] at h
    exact .inr ⟨.symm hij, h⟩

theorem inTurn_append {order : List ℕ} :
    InTurn (order ++ [i]) ↔ InTurn order ∧ order.length ≤ i := by
  constructor
  · intro h
    refine ⟨fun j i' hj => h j i' ?_, h order.length i (by simp)⟩
    rw [List.getElem?_append_left (List.getElem?_eq_some_iff.mp hj).1, hj]
  · rintro ⟨hold, hi⟩ j i' hj
    rcases lt_trichotomy j order.length with hlt | rfl | hgt
    · exact hold j i' (by rwa [getElem?_append_left hlt] at hj)
    · simp only [getElem?_concat_length, Option.some.injEq] at hj
      omega
    · simp [getElem?_eq_none, succ_le_iff.mpr hgt] at hj

section
variable {i : ℕ} {total : UInt64} {next : ℕ} {mirrors : List ℕ} {h : MirrorHandler H}

/-- The test of a call, by the number of its request. -/
theorem Inv.wants_iff (hs : Inv s log) (hn : s.calls.length * 100 < 2 ^ 64)
    (hi : s.calls[i]? = some (.looping total next mirrors))
    (hh : s.mirroring.mirrorHandlers[next]? = some h) :
    h.wants total = true ↔ h.count.toNat < share (i + 1) h.percent := by
  have hnumber : total.toNat = i + 1 := hs.number i _ hi
  have hlt := (List.getElem?_eq_some_iff.mp hi).1
  rw [← hnumber]
  exact MirrorHandler.wants_iff hn ((hs.bound next h hh).trans (share_le h.percent_le)) (by omega)

theorem Inv.take_bound (hs : Inv s log) (hn : s.calls.length * 100 < 2 ^ 64)
    (hi : s.calls[i]? = some (.looping total next mirrors))
    (hh : s.mirroring.mirrorHandlers[next]? = some h) :
    (h.take total).count.toNat ≤ share s.calls.length h.percent := by
  have hbound := hs.bound next h hh
  rw [take_count hn (hbound.trans (share_le h.percent_le))]
  split
  · next hwants =>
    have hlt := (hs.wants_iff hn hi hh).mp hwants
    have hmono := share_mono h.percent (succ_le_iff.mpr (List.getElem?_eq_some_iff.mp hi).1)
    exact hlt.trans_le hmono
  · exact hbound

/-- At the lock of a mirror that is to get every request. -/
theorem Inv.take_full (hs : Inv s log) (hn : s.calls.length * 100 < 2 ^ 64)
    (hi : s.calls[i]? = some (.looping total next mirrors))
    (hh : s.mirroring.mirrorHandlers[next]? = some h) (hp : h.percent = 100) :
    ((∀ j ∈ order next log ++ [i], Mirrored (s.take i total next mirrors h) next j) ↔
      InTurn (order next log ++ [i])) ∧
    ((∀ j ∈ order next log ++ [i], Mirrored (s.take i total next mirrors h) next j) →
      (h.take total).count.toNat = (order next log ++ [i]).length) := by
  obtain ⟨hiff, hlen⟩ := hs.full next h hh hp
  have hmirrors : next ∉ mirrors := fun hmem =>
    lt_irrefl next (hs.listed i total next mirrors hi next hmem)
  have hnot : i ∉ order next log := fun hmem =>
    lt_irrefl next ((hs.looping i total next mirrors hi next).mp hmem)
  -- the requests before this one keep what they have
  have hall : (∀ j ∈ order next log ++ [i], Mirrored (s.take i total next mirrors h) next j) ↔
      (∀ j ∈ order next log, Mirrored s next j) ∧ h.wants total = true := by
    simp only [State.take, mirrored_set hi, forall_mem_append, forall_mem_singleton, if_true]
    refine and_congr (forall₂_congr fun j hj => ?_) ?_
    · rw [if_neg (ne_of_mem_of_not_mem hj hnot)]
    · by_cases hw : h.wants total <;> simp [Call.mirrors, hw, hmirrors]
  have hwants := hs.wants_iff hn hi hh
  rw [hp, share_hundred] at hwants
  rw [hall, inTurn_append, ← hiff]
  constructor
  · refine and_congr_right fun hold => ?_
    rw [hwants, hlen hold]
    omega
  · rintro ⟨hold, hw⟩
    rw [take_count hn ((hs.bound next h hh).trans (share_le h.percent_le)), if_pos hw,
      hlen hold, length_append, length_singleton]

/-- The other calls are where they were in the order of a mirror. -/
theorem mem_order_append {k j : ℕ} (hj : j ≠ i) :
    j ∈ order k (log ++ [(i, next)]) ↔ j ∈ order k log := by
  rw [order_append]
  split <;> simp [hj]

theorem Inv.take (hs : Inv s log) (hn : s.calls.length * 100 < 2 ^ 64)
    (hi : s.calls[i]? = some (.looping total next mirrors))
    (hh : s.mirroring.mirrorHandlers[next]? = some h) :
    Inv (s.take i total next mirrors h) (log ++ [(i, next)]) := by
  have hlen : (s.take i total next mirrors h).calls.length = s.calls.length := by
    simp [State.take]
  have hnumber : total.toNat = i + 1 := hs.number i _ hi
  constructor
  case total => rw [hlen]; exact hs.total
  case number =>
    intro j call hj
    rcases set_cases hj with ⟨rfl, rfl⟩ | ⟨_, hj⟩
    · exact hnumber
    · exact hs.number j call hj
  case bound =>
    intro k h' hk
    rw [hlen]
    rcases set_cases hk with ⟨rfl, rfl⟩ | ⟨_, hk⟩
    · rw [take_percent]
      exact hs.take_bound hn hi hh
    · exact hs.bound k h' hk
  case known =>
    intro k j hj
    rw [hlen]
    by_cases hji : j = i
    · rw [hji]
      exact (List.getElem?_eq_some_iff.mp hi).1
    · exact hs.known k j ((mem_order_append hji).mp hj)
  case looping =>
    intro j total' next' mirrors' hj k
    rcases set_cases hj with ⟨rfl, hcall⟩ | ⟨hji, hj⟩
    · cases hcall
      have hold := hs.looping j total next mirrors hi k
      rw [order_append, Nat.lt_succ_iff, le_iff_eq_or_lt, ← hold]
      split
      · next hk => simp [hk]
      · next hk => simp [Ne.symm hk]
    · rw [mem_order_append hji]
      exact hs.looping j total' next' mirrors' hj k
  case listed =>
    intro j total' next' mirrors' hj k hk
    rcases set_cases hj with ⟨rfl, hcall⟩ | ⟨_, hj⟩
    · cases hcall
      have hold := hs.listed j total next mirrors hi k
      split at hk
      · rcases mem_append.mp hk with hk | hk
        · exact lt_succ_of_lt (hold hk)
        · rw [mem_singleton.mp hk]
          exact lt_succ_self next
      · exact lt_succ_of_lt (hold hk)
    · exact hs.listed j total' next' mirrors' hj k hk
  case returned =>
    intro j total' mirrors' hj k hk
    rcases set_cases hj with ⟨_, hcall⟩ | ⟨hji, hj⟩
    · cases hcall
    · rw [mem_order_append hji]
      exact hs.returned j total' mirrors' hj k (by simpa [State.take] using hk)
  case full =>
    intro k h' hk hp
    rcases set_cases hk with ⟨rfl, rfl⟩ | ⟨hkn, hk⟩
    · rw [take_percent] at hp
      rw [order_append, if_pos rfl]
      exact hs.take_full hn hi hh hp
    · -- another mirror has the requests it had
      have hsame : ∀ j, Mirrored (s.take i total next mirrors h) k j ↔ Mirrored s k j := by
        intro j
        rw [State.take, mirrored_set hi]
        split
        · next hji =>
          subst hji
          have hcall : Mirrored s k j ↔ k ∈ mirrors := by
            simp [Mirrored, hi, Call.mirrors]
          rw [hcall]
          by_cases hw : h.wants total <;> simp [Call.mirrors, hw, hkn]
        · rfl
      simp only [hsame]
      rw [order_append, if_neg (Ne.symm hkn)]
      exact hs.full k h' hk hp

/-- A call returns. -/
theorem Inv.ret (hs : Inv s log) (hi : s.calls[i]? = some (.looping total next mirrors))
    (hend : s.mirroring.mirrorHandlers.length ≤ next) :
    Inv { s with calls := s.calls.set i (.returned total mirrors) } log := by
  have hsame : ∀ k j, Mirrored { s with calls := s.calls.set i (.returned total mirrors) } k j ↔
      Mirrored s k j := by
    intro k j
    rw [mirrored_set hi]
    split
    · next hji =>
      subst hji
      simp [Mirrored, hi, Call.mirrors]
    · rfl
  have hnumber : total.toNat = i + 1 := hs.number i _ hi
  constructor
  case total => simpa using hs.total
  case number =>
    intro j call hj
    rcases set_cases hj with ⟨rfl, rfl⟩ | ⟨_, hj⟩
    · exact hnumber
    · exact hs.number j call hj
  case bound => simpa using hs.bound
  case known => simpa using hs.known
  case looping =>
    intro j total' next' mirrors' hj
    rcases set_cases hj with ⟨_, hcall⟩ | ⟨_, hj⟩
    · cases hcall
    · exact hs.looping j total' next' mirrors' hj
  case listed =>
    intro j total' next' mirrors' hj
    rcases set_cases hj with ⟨_, hcall⟩ | ⟨_, hj⟩
    · cases hcall
    · exact hs.listed j total' next' mirrors' hj
  case returned =>
    intro j total' mirrors' hj k hk
    rcases set_cases hj with ⟨rfl, _⟩ | ⟨_, hj⟩
    · exact (hs.looping j total next mirrors hi k).mpr (hk.trans_le hend)
    · exact hs.returned j total' mirrors' hj k hk
  case full =>
    intro k h' hk hp
    simp only [hsame]
    exact hs.full k h' hk hp

end

end

/-- No call is forgotten. -/
theorem calls_le {s s' : State H} {label : Label} (hst : s.step label s') :
    s.calls.length ≤ s'.calls.length := by
  cases label with
  | inc =>
    rw [show s' = s.inc from hst]
    simp [State.inc]
  | take i =>
    obtain ⟨total, next, mirrors, h, _, _, rfl⟩ := hst
    simp [State.take]
  | ret i =>
    obtain ⟨total, next, mirrors, _, _, rfl⟩ := hst
    simp

/-- The invariant, in every interleaving of requests whose counters do not overflow. -/
theorem inv_of_reachable {st : State H × List (ℕ × ℕ)}
    (h : ((mirroring H).observe locks).Reachable st) (hn : st.1.calls.length * 100 < 2 ^ 64) :
    Inv st.1 st.2 := by
  induction h with
  | init hs =>
    rw [hs.2]
    exact inv_init hs.1
  | step label _ hst ih =>
    obtain ⟨hst, hlog⟩ := hst
    have hinv := ih (by have := calls_le hst; omega)
    rw [hlog]
    cases label with
    | inc =>
      rw [hst] at hn ⊢
      simpa [locks] using hinv.inc hn
    | take i =>
      obtain ⟨total, next, mirrors, h, hi, hh, hst⟩ := hst
      rw [hst] at hn ⊢
      simp only [locks, hi]
      exact hinv.take (by simpa [State.take] using hn) hi hh
    | ret i =>
      obtain ⟨total, next, mirrors, hi, hend, hst⟩ := hst
      rw [hst]
      simpa [locks] using hinv.ret hi hend

/-! ## What a mirror gets -/

/-- **The share of a mirror**.  Of requests that are handled one after the other it gets the
    percentage it was added with, rounded up, and in every interleaving it has had no more than
    that of the requests counted so far.  A mirror for all requests gets every request that was
    at its lock when none of them came there behind more requests than were counted before it,
    and only then. -/
theorem mirrors_its_share :
    (∀ (m : Mirroring H) (n k : ℕ) (h : MirrorHandler H), Built m → n * 100 < 2 ^ 64 →
      m.mirrorHandlers[k]? = some h → (m.requests n).1.countP (k ∈ ·) = share n h.percent) ∧
    ∀ st : State H × List (ℕ × ℕ), ((mirroring H).observe locks).Reachable st →
      st.1.calls.length * 100 < 2 ^ 64 →
      ∀ (k : ℕ) (h : MirrorHandler H), st.1.mirroring.mirrorHandlers[k]? = some h →
        h.count.toNat ≤ share st.1.mirroring.total.toNat h.percent ∧
        (∀ (i : ℕ) (total : UInt64) (mirrors : List ℕ),
          st.1.calls[i]? = some (.returned total mirrors) → i ∈ order k st.2) ∧
        (h.percent = 100 →
          ((∀ i ∈ order k st.2, Mirrored st.1 k i) ↔ InTurn (order k st.2))) := by
  constructor
  · intro m n k h hm hn hk
    exact ((requests_spec hm hn).2 k h hk).1
  · intro st hreach hn k h hk
    have hinv := inv_of_reachable hreach hn
    refine ⟨?_, ?_, ?_⟩
    · rw [hinv.total]
      exact hinv.bound k h hk
    · intro i total mirrors hi
      exact hinv.returned i total mirrors hi k (List.getElem?_eq_some_iff.mp hk).1
    · intro hp
      exact (hinv.full k h hk hp).1

/-- Of two requests the one counted second is first at the mirror, which then turns the one
    counted first away. -/
theorem overtaken_request_not_mirrored :
    ∃ (st : State Unit × List (ℕ × ℕ)) (h : MirrorHandler Unit),
      ((mirroring Unit).observe locks).Reachable st ∧
      st.1.mirroring.mirrorHandlers[0]? = some h ∧ h.percent = 100 ∧
      st.1.mirroring.total = 2 ∧ h.count = 1 ∧
      st.1.calls = [.returned 1 [], .returned 2 [0]] ∧ order 0 st.2 = [1, 0] := by
  let sys := (mirroring Unit).observe locks
  have hadd : new.addMirror () 100 = .ok ⟨[⟨(), 100, 0, le_refl 100⟩], 0⟩ := rfl
  have hstart : sys.Reachable (⟨⟨[⟨(), 100, 0, le_refl 100⟩], 0⟩, []⟩, []) :=
    .init ⟨⟨.addMirror .new hadd, rfl⟩, rfl⟩
  have hone : sys.Reachable (_, _) := .step .inc hstart ⟨rfl, rfl⟩
  have htwo : sys.Reachable (_, _) := .step .inc hone ⟨rfl, rfl⟩
  have hsecond : sys.Reachable (_, _) := .step (.take 1) htwo ⟨⟨_, _, _, _, rfl, rfl, rfl⟩, rfl⟩
  have hfirst : sys.Reachable (_, _) := .step (.take 0) hsecond ⟨⟨_, _, _, _, rfl, rfl, rfl⟩, rfl⟩
  have hreturned : sys.Reachable (_, _) :=
    .step (.ret 0) hfirst ⟨⟨_, _, _, rfl, le_refl 1, rfl⟩, rfl⟩
  exact ⟨(_, _), _, .step (.ret 1) hreturned ⟨⟨_, _, _, rfl, le_refl 1, rfl⟩, rfl⟩,
    rfl, rfl, rfl, rfl, rfl, rfl⟩

end Ingress.Mirror
