import Ingress.Framework.Countdown
import Ingress.Framework.Loop
import Ingress.Framework.System
import Ingress.LoadBalancer.Status

/-! # TCP Weighted Round Robin

    The balancer of `pkg/tcp/wrr_load_balancer.go`.  `nextServer` walks over the
    servers again and again; each pass has a weight, which goes down by the gcd
    of all weights from one pass to the next and starts over from the largest
    weight.  A server is picked when it is up and at least as heavy as the pass.

    Weights are the machine integers of the source (`int`, 64 bits): with
    negative weights the gcd can be negative, and then the weight of the passes
    grows until it wraps around.

    * `WRRLoadBalancer`, `add`, `setStatus`, `nextServer`: the code.
    * `Meets`: the states in which `nextServer` does what it is for.
    * `nextServer_answers_iff_meets`: it does so in exactly these states. -/

open List Loop LTS Or Int64

namespace Ingress.Tcp

variable {H : Type}

/-! ## The code -/

/-- A server of the pool. -/
structure Server (H : Type) where
  handler : H
  name : String
  weight : Int64

/-- The balancer.  `index` is the position of the last pick, -1 at the start. -/
structure WRRLoadBalancer (H : Type) where
  servers : List (Server H)
  status : StatusMap
  index : Int
  currentWeight : Int64

/-- What `nextServer` fails with. -/
inductive Error where
  /-- "no servers in the pool" -/
  | noServersInPool
  /-- "all servers have 0 weight" -/
  | allServersZeroWeight
  /-- The panic of an index past the end of the servers. -/
  | indexOutOfRange
  deriving DecidableEq, Repr

def newWRRLoadBalancer : WRRLoadBalancer H where
  servers := []
  status := ∅
  index := -1
  currentWeight := 0

/-- `Add`.  A missing weight is 1; no weight is refused. -/
def add (b : WRRLoadBalancer H) (name : String) (handler : H) (weight : Option Int64) :
    WRRLoadBalancer H :=
  { b with
    servers := b.servers ++ [{ handler, name, weight := weight.getD 1 }]
    status := insert name b.status }

/-- `SetStatus`, with the value the updaters are called with. -/
def setStatus (b : WRRLoadBalancer H) (childName : String) (up : Bool) :
    WRRLoadBalancer H × Option Bool :=
  let (status, notify) := b.status.setStatus childName up
  ({ b with status }, notify)

/-- `maxWeight`: the largest weight, and -1 when there is none above it. -/
def maxWeight (servers : List (Server H)) : Int64 :=
  servers.foldl (fun maximum s => if s.weight > maximum then s.weight else maximum) (-1)

/-- `gcd`, with the truncated remainder of the source. -/
def gcd (a b : Int64) : Int64 :=
  if b = 0 then a else gcd b (a % b)
termination_by b.toInt.natAbs
decreasing_by
  next hb =>
    have hb' : b.toInt ≠ 0 := fun h => hb (Int64.toInt_inj.mp (by simpa using h))
    rw [Int64.toInt_mod, Int.natAbs_tmod]
    exact Nat.mod_lt _ (Int.natAbs_pos.mpr hb')

/-- `weightGcd`.  The value -1 stands for "no divisor yet". -/
def weightGcd (servers : List (Server H)) : Int64 :=
  servers.foldl
    (fun divisor s => if divisor = -1 then s.weight else gcd divisor s.weight) (-1)

/-- The weight of the pass after the one of weight `c`. -/
def nextPass (maximum divisor c : Int64) : Int64 :=
  if c - divisor ≤ 0 then maximum else c - divisor

/-- The server is up and at least as heavy as the pass: the exit test of the loop. -/
def Hit (status : StatusMap) (c : Int64) (s : Server H) : Prop :=
  s.name ∈ status ∧ c ≤ s.weight

instance (status : StatusMap) (c : Int64) (s : Server H) : Decidable (Hit status c s) :=
  inferInstanceAs (Decidable (_ ∧ _))

/-- One turn of the loop of `nextServer`. -/
def pick (maximum divisor : Int64) (b : WRRLoadBalancer H) :
    Turn (WRRLoadBalancer H) (Except Error (Server H) × WRRLoadBalancer H) :=
  -- `index` is at least -1 and the servers are at least one, so both readings
  -- of the remainder agree
  let index := (b.index + 1) % b.servers.length
  let currentWeight :=
    if index = 0 then nextPass maximum divisor b.currentWeight else b.currentWeight
  let b' := { b with index, currentWeight }
  match b.servers[index.toNat]? with
  | none => .leave (.error .indexOutOfRange, b')
  | some srv => if Hit b.status currentWeight srv then .leave (.ok srv, b') else .again b'

/-- `nextServer`, with a bound on the turns of its loop. -/
def nextServer (fuel : Nat) (b : WRRLoadBalancer H) :
    Option (Except Error (Server H) × WRRLoadBalancer H) :=
  if b.servers.length = 0 ∨ b.status.card = 0 then some (.error .noServersInPool, b)
  else if maxWeight b.servers = 0 then some (.error .allServersZeroWeight, b)
  else iterate (pick (maxWeight b.servers) (weightGcd b.servers)) fuel b

/-! ## Runs -/

/-- The calls a balancer can receive. -/
inductive Call (H : Type) where
  | add (name : String) (handler : H) (weight : Option Int64)
  | setStatus (childName : String) (up : Bool)
  | nextServer

/-- The balancer as a transition system.  A call of `nextServer` is a step only
    when it returns. -/
def tcpWrr (H : Type) : System (WRRLoadBalancer H) (Call H) where
  init := fun b => b = newWRRLoadBalancer
  step := fun b call b' =>
    match call with
    | .add name handler weight => b' = add b name handler weight
    | .setStatus childName up => b' = (setStatus b childName up).1
    | .nextServer => ∃ fuel r, nextServer fuel b = some (r, b')

/-! ## What `nextServer` is for -/

/-- The server is up and has a positive weight. -/
def Eligible (b : WRRLoadBalancer H) (s : Server H) : Prop :=
  s.name ∈ b.status ∧ 0 < s.weight

instance (b : WRRLoadBalancer H) (s : Server H) : Decidable (Eligible b s) :=
  inferInstanceAs (Decidable (_ ∧ _))

/-- `nextServer` returns: an eligible server if there is one, and an error
    otherwise. -/
def AnswersRight (b : WRRLoadBalancer H) : Prop :=
  ∃ fuel r b', nextServer fuel b = some (r, b') ∧
    ((∃ s ∈ b.servers, Eligible b s) → ∃ s ∈ b.servers, r = .ok s ∧ Eligible b s) ∧
    ((∀ s ∈ b.servers, ¬ Eligible b s) → ∃ e, e ≠ .indexOutOfRange ∧ r = .error e)

/-- The tests before the loop fail. -/
def Refuses (b : WRRLoadBalancer H) : Prop :=
  b.servers.length = 0 ∨ b.status.card = 0 ∨ maxWeight b.servers = 0

instance (b : WRRLoadBalancer H) : Decidable (Refuses b) :=
  inferInstanceAs (Decidable (_ ∨ _))

/-- The servers the current pass has not come to. -/
def unvisited (b : WRRLoadBalancer H) : List (Server H) :=
  if b.index < 0 then [] else b.servers.drop (b.index.toNat + 1)

/-- The least weight of the passes that follow the current one. -/
def lowestPass (b : WRRLoadBalancer H) : Int :=
  Countdown.lowest (2 ^ 63) (maxWeight b.servers).toInt (weightGcd b.servers).toInt
    b.currentWeight.toInt

/-- The tests before the loop fail, or a server that is up with a positive
    weight is heavy enough: for the rest of the current pass, or for the
    lightest of the passes that follow. -/
def Meets (b : WRRLoadBalancer H) : Prop :=
  Refuses b ∨
  (∃ s ∈ unvisited b, Eligible b s ∧ b.currentWeight ≤ s.weight) ∨
  ∃ s ∈ b.servers, Eligible b s ∧ lowestPass b ≤ s.weight.toInt

instance (b : WRRLoadBalancer H) : Decidable (Meets b) :=
  inferInstanceAs (Decidable (_ ∨ _ ∨ _))

/-- The condition on the steps of a run: `nextServer` is called only in states
    in which it does what it is for. -/
def MeetsAtCalls (b : WRRLoadBalancer H) (call : Call H) : Prop :=
  match call with
  | .nextServer => Meets b
  | _ => True

/-! ## The weights of the passes -/

open Countdown

theorem nextPass_toInt (most div : Int64) {c : Int64} (hc : 0 ≤ c.toInt) :
    (nextPass most div c).toInt =
      next (2 ^ 63) most.toInt div.toInt c.toInt := by
  have hc' := c.toInt_lt
  have hd := div.toInt_lt
  have hd' := div.le_toInt
  -- the difference of the source, which wraps around once it leaves 63 bits
  have hsub : (c - div).toInt = if c.toInt - div.toInt < 2 ^ 63
      then c.toInt - div.toInt else c.toInt - div.toInt - 2 ^ 64 := by
    rw [toInt_sub, Int.bmod_def]
    split <;> split <;> omega
  have hle : c - div ≤ 0 ↔
      c.toInt - div.toInt ≤ 0 ∨ 2 ^ 63 ≤ c.toInt - div.toInt := by
    rw [le_iff_toInt_le, hsub, toInt_zero]
    split <;> omega
  unfold nextPass Countdown.next
  by_cases h : c - div ≤ 0
  · rw [if_pos h, if_pos (hle.mp h)]
  · rw [if_neg h, if_neg (fun hcon => h (hle.mpr hcon)), hsub]
    rw [hle] at h
    rw [if_pos (by omega)]

theorem iterate_nextPass_toInt {most div : Int64} (hmax : 0 < most.toInt)
    {c : Int64} (hc : 0 ≤ c.toInt) (k : Nat) :
    ((nextPass most div)^[k] c).toInt =
      (next (2 ^ 63) most.toInt div.toInt)^[k] c.toInt := by
  induction k with
  | zero => rfl
  | succ k ih =>
    have hk : 0 ≤ ((nextPass most div)^[k] c).toInt := by
      rw [ih]
      cases k with
      | zero => exact hc
      | succ k => exact (iterate_next_pos hmax _ k).le
    rw [Function.iterate_succ_apply', Function.iterate_succ_apply', nextPass_toInt _ _ hk, ih]

/-! ## The largest weight -/

theorem le_maxWeight_aux (servers : List (Server H)) (m : Int64) :
    m.toInt ≤ (servers.foldl
      (fun maximum s => if s.weight > maximum then s.weight else maximum) m).toInt ∧
    ∀ s ∈ servers, s.weight.toInt ≤ (servers.foldl
      (fun maximum s => if s.weight > maximum then s.weight else maximum) m).toInt := by
  induction servers generalizing m with
  | nil => simp
  | cons x xs ih =>
    obtain ⟨hm, hxs⟩ := ih (if x.weight > m then x.weight else m)
    have hx : m.toInt ≤ (if x.weight > m then x.weight else m).toInt ∧
        x.weight.toInt ≤ (if x.weight > m then x.weight else m).toInt := by
      split
      · next h => exact ⟨(lt_iff_toInt_lt.mp h).le, le_rfl⟩
      · next h =>
        rw [gt_iff_lt, lt_iff_toInt_lt] at h
        exact ⟨le_rfl, not_lt.mp h⟩
    refine ⟨hx.1.trans hm, ?_⟩
    intro s hs
    rcases mem_cons.mp hs with rfl | hs
    · exact hx.2.trans hm
    · exact hxs s hs

variable {s : Server H}

theorem le_maxWeight {servers : List (Server H)} (hs : s ∈ servers) :
    s.weight.toInt ≤ (maxWeight servers).toInt :=
  (le_maxWeight_aux servers (-1)).2 s hs

/-! ## The gcd of the weights -/

theorem gcd_toInt {a b : Int64} (ha : 0 ≤ a.toInt) (hb : 0 ≤ b.toInt) :
    (gcd a b).toInt = Int.gcd a.toInt b.toInt := by
  induction a, b using gcd.induct with
  | case1 a =>
    rw [gcd, if_pos rfl, toInt_zero, Int.gcd_zero_right]
    omega
  | case2 a b hne ih =>
    rw [gcd, if_neg hne, ih hb (by rw [toInt_mod]; exact Int.tmod_nonneg _ ha),
      toInt_mod, Int.tmod_eq_emod_of_nonneg ha, Int.gcd_comm b.toInt, Int.gcd_emod]

/-- Folding `gcd` over weights that are not negative gives a common divisor. -/
theorem foldl_gcd_dvd (servers : List (Server H)) (hpos : ∀ s ∈ servers, 0 ≤ s.weight.toInt)
    {d : Int64} (hd : 0 ≤ d.toInt) :
    let g := servers.foldl (fun div s => if div = -1 then s.weight else gcd div s.weight) d
    0 ≤ g.toInt ∧ g.toInt ∣ d.toInt ∧ ∀ s ∈ servers, g.toInt ∣ s.weight.toInt := by
  induction servers generalizing d with
  | nil => exact ⟨hd, dvd_rfl, by simp⟩
  | cons x xs ih =>
    -- a divisor that is not negative is never taken for a missing one
    have hne : d ≠ -1 := by
      rintro rfl
      exact absurd hd (by decide)
    have hx := hpos x (.head _)
    have hgcd := gcd_toInt hd hx
    obtain ⟨h₀, h₁, h₂⟩ := ih (fun s hs => hpos s (.tail _ hs))
      (d := gcd d x.weight) (by rw [hgcd]; exact Int.natCast_nonneg _)
    simp only [foldl_cons, if_neg hne]
    rw [hgcd] at h₁
    refine ⟨h₀, h₁.trans (Int.gcd_dvd_left _ _), ?_⟩
    intro s hs
    rcases mem_cons.mp hs with rfl | hs
    · exact h₁.trans (Int.gcd_dvd_right _ _)
    · exact h₂ s hs

theorem weightGcd_dvd {servers : List (Server H)}
    (hpos : ∀ s ∈ servers, 0 ≤ s.weight.toInt) (hs : s ∈ servers) :
    0 ≤ (weightGcd servers).toInt ∧ (weightGcd servers).toInt ∣ s.weight.toInt := by
  cases servers with
  | nil => cases hs
  | cons x xs =>
    obtain ⟨h₀, h₁, h₂⟩ := foldl_gcd_dvd xs
      (fun s hs => hpos s (.tail _ hs)) (hpos x (.head _))
    have hfold : weightGcd (x :: xs) = xs.foldl
        (fun div s => if div = -1 then s.weight else gcd div s.weight) x.weight := by
      simp [weightGcd]
    refine ⟨h₀, ?_⟩
    rcases mem_cons.mp hs with rfl | hs
    · exact h₁
    · exact h₂ s hs

/-! ## The states of the loop

    The loop only moves the index and the weight of the pass, so the state after
    `t` turns is known: the walk has come to position `position b + t`, counted
    over all passes. -/

/-- Where the walk stands in the current pass; before the first pass, at the end. -/
def position (b : WRRLoadBalancer H) : Nat :=
  if b.index < 0 then b.servers.length - 1 else b.index.toNat

/-- The weight of the pass that position `q` of the walk belongs to. -/
def passWeight (b : WRRLoadBalancer H) (q : Nat) : Int64 :=
  (nextPass (maxWeight b.servers) (weightGcd b.servers))^[q / b.servers.length] b.currentWeight

/-- The balancer at position `q` of the walk. -/
def stateAt (b : WRRLoadBalancer H) (q : Nat) : WRRLoadBalancer H :=
  { b with
    index := (q % b.servers.length : Nat)
    currentWeight := passWeight b q }

/-- The server at position `q` of the walk. -/
def serverAt (b : WRRLoadBalancer H) (hn : 0 < b.servers.length) (q : Nat) : Server H :=
  b.servers.get ⟨q % b.servers.length, Nat.mod_lt _ hn⟩

theorem serverAt_mem (b : WRRLoadBalancer H) (hn : 0 < b.servers.length) (q : Nat) :
    serverAt b hn q ∈ b.servers :=
  get_mem _ _

/-- Either no pass has begun, or the index is one of the pool and the weight of
    the pass is positive. -/
def Started (b : WRRLoadBalancer H) : Prop :=
  (b.index = -1 ∧ b.currentWeight = 0) ∨
  (0 ≤ b.index ∧ b.index < b.servers.length ∧ 0 < b.currentWeight)

theorem pick_stateAt (b : WRRLoadBalancer H) (hn : 0 < b.servers.length) (q : Nat) :
    pick (maxWeight b.servers) (weightGcd b.servers) (stateAt b q) =
      if Hit b.status (passWeight b (q + 1)) (serverAt b hn (q + 1)) then
        .leave (.ok (serverAt b hn (q + 1)), stateAt b (q + 1))
      else .again (stateAt b (q + 1)) := by
  have hindex : (((q % b.servers.length : Nat) : Int) + 1) % b.servers.length =
      ((q + 1) % b.servers.length : Nat) := by
    rw [← Nat.mod_add_mod q b.servers.length 1]
    rfl
  have hwt : (if (((q + 1) % b.servers.length : Nat) : Int) = 0 then
      nextPass (maxWeight b.servers) (weightGcd b.servers) (passWeight b q)
      else passWeight b q) = passWeight b (q + 1) := by
    unfold passWeight
    rw [Nat.succ_div]
    -- a pass ends where the position is a multiple of the length
    by_cases hdvd : b.servers.length ∣ q + 1
    · rw [if_pos hdvd, if_pos (by rw [Nat.mod_eq_zero_of_dvd hdvd]; rfl),
        Function.iterate_succ_apply']
    · rw [if_neg hdvd, if_neg (fun h => hdvd (Nat.dvd_of_mod_eq_zero (by exact_mod_cast h))),
        Nat.add_zero]
  have hserver : b.servers[(q + 1) % b.servers.length]? = some (serverAt b hn (q + 1)) := by
    simp [serverAt, Nat.mod_lt _ hn]
  simp only [pick, stateAt, hindex, hwt, Int.toNat_natCast, hserver]

variable {b : WRRLoadBalancer H}

theorem position_lt (hb : Started b) (hn : 0 < b.servers.length) :
    position b < b.servers.length := by
  unfold position
  rcases hb with ⟨hi, _⟩ | ⟨hi, hi', _⟩ <;> split <;> omega

/-- The first turn does not depend on where the walk stood before the first pass. -/
theorem pick_eq_pick_stateAt (hb : Started b) (hn : 0 < b.servers.length) (most div : Int64) :
    pick most div b = pick most div (stateAt b (position b)) := by
  have hlt := position_lt hb hn
  have hwt : passWeight b (position b) = b.currentWeight := by
    unfold passWeight
    rw [Nat.div_eq_of_lt hlt]
    rfl
  have hindex : (b.index + 1) % b.servers.length =
      (((position b % b.servers.length : Nat) : Int) + 1) % b.servers.length := by
    rw [Nat.mod_eq_of_lt hlt]
    unfold position
    rcases hb with ⟨hi, _⟩ | ⟨hi, _, _⟩
    · rw [if_pos (by omega), hi, Nat.cast_sub (by omega)]
      simp
    · rw [if_neg (by omega), Int.toNat_of_nonneg hi]
  simp only [pick, stateAt, hwt, hindex]

/-- The walk from `b` comes to a server that is hit. -/
def WalkHits (b : WRRLoadBalancer H) (hn : 0 < b.servers.length) (q : Nat) : Prop :=
  position b < q ∧ Hit b.status (passWeight b q) (serverAt b hn q)

section
variable (hb : Started b)
include hb

theorem pick_returns_of_hit (hn : 0 < b.servers.length) (h : ∃ q, WalkHits b hn q) :
    ∃ q, WalkHits b hn q ∧ Returns (pick (maxWeight b.servers) (weightGcd b.servers)) b
      (.ok (serverAt b hn q), stateAt b q) := by
  obtain ⟨q, hlt, hhit⟩ := h
  -- turn `t` looks at position `position b + t + 1`
  have hseq := fun t => pick_stateAt b hn (position b + t)
  obtain ⟨t, ht, hret⟩ := returns_of_sequence (fun t => stateAt b (position b + t)) _ _ hseq
    ⟨q - position b - 1, by
      rw [show position b + (q - position b - 1) + 1 = q by omega]; exact hhit⟩
  exact ⟨position b + t + 1, ⟨by omega, ht⟩,
    Returns.congr (pick_eq_pick_stateAt hb hn _ _).symm hret⟩

theorem pick_diverges_of_no_hit (hn : 0 < b.servers.length) (h : ∀ q, ¬ WalkHits b hn q) :
    Diverges (pick (maxWeight b.servers) (weightGcd b.servers)) b := by
  have hseq := fun t => pick_stateAt b hn (position b + t)
  apply Diverges.congr (pick_eq_pick_stateAt hb hn _ _).symm
  apply diverges_of_sequence (fun t => stateAt b (position b + t)) _ _ hseq
  intro t hhit
  exact h (position b + t + 1) ⟨by omega, hhit⟩

/-! ## Which servers the walk hits -/

theorem currentWeight_nonneg : 0 ≤ b.currentWeight.toInt := by
  rcases hb with ⟨_, hc⟩ | ⟨_, _, hc⟩
  · rw [hc]; decide
  · exact (lt_iff_toInt_lt.mp hc).le

/-- The weight of a later pass, as an integer. -/
theorem passWeight_toInt (hmax : 0 < (maxWeight b.servers).toInt) (q : Nat) :
    (passWeight b q).toInt =
      (next (2 ^ 63) (maxWeight b.servers).toInt
        (weightGcd b.servers).toInt)^[q / b.servers.length] b.currentWeight.toInt :=
  iterate_nextPass_toInt hmax (currentWeight_nonneg hb) _

/-- Every pass the walk comes to has a positive weight. -/
theorem passWeight_pos {q : Nat}
    (hn : 0 < b.servers.length) (hmax : 0 < (maxWeight b.servers).toInt)
    (hlt : position b < q) : 0 < passWeight b q := by
  rw [lt_iff_toInt_lt, toInt_zero, passWeight_toInt hb hmax]
  cases hpass : q / b.servers.length with
  | zero =>
    -- still in the current pass, which therefore has begun
    rcases hb with ⟨hi, _⟩ | ⟨_, _, hc⟩
    · unfold position at hlt
      rw [if_pos (by omega)] at hlt
      rcases Nat.div_eq_zero_iff.mp hpass with h0 | hq <;> omega
    · exact lt_iff_toInt_lt.mp hc
  | succ k => exact iterate_next_pos hmax _ k

/-- Only eligible servers are hit. -/
theorem WalkHits.eligible {hn : 0 < b.servers.length} {q : Nat}
    (hmax : 0 < (maxWeight b.servers).toInt) (h : WalkHits b hn q) :
    Eligible b (serverAt b hn q) := by
  obtain ⟨hlt, hup, hwt⟩ := h
  have hpos := passWeight_pos hb hn hmax hlt
  rw [le_iff_toInt_le] at hwt
  rw [lt_iff_toInt_lt] at hpos
  exact ⟨hup, lt_iff_toInt_lt.mpr (hpos.trans_le hwt)⟩

end

theorem mem_unvisited_iff (hn : 0 < b.servers.length) :
    s ∈ unvisited b ↔ ∃ q, position b < q ∧ q < b.servers.length ∧ serverAt b hn q = s := by
  have hget : ∀ q, (hq : q < b.servers.length) → serverAt b hn q = b.servers.get ⟨q, hq⟩ := by
    intro q hq
    simp [serverAt, Nat.mod_eq_of_lt hq]
  unfold unvisited position
  split
  · constructor
    · intro h; cases h
    · rintro ⟨q, h₁, h₂, _⟩; omega
  · constructor
    · intro h
      obtain ⟨j, hj, rfl⟩ := mem_iff_getElem.mp h
      rw [length_drop] at hj
      refine ⟨b.index.toNat + 1 + j, by omega, by omega, ?_⟩
      rw [hget _ (by omega)]
      simp
    · rintro ⟨q, h₁, h₂, rfl⟩
      rw [hget q h₂]
      exact mem_iff_getElem.mpr ⟨q - (b.index.toNat + 1), by rw [length_drop]; omega, by
        simp [show b.index.toNat + 1 + (q - (b.index.toNat + 1)) = q by omega]⟩

/-- **What the walk hits**: it comes to a hit exactly when an eligible server is
    heavy enough for the rest of the current pass or for the lightest pass. -/
theorem exists_walkHits_iff (hb : Started b)
    (hn : 0 < b.servers.length) (hmax : 0 < (maxWeight b.servers).toInt) :
    (∃ q, WalkHits b hn q) ↔
      (∃ s ∈ unvisited b, Eligible b s ∧ b.currentWeight ≤ s.weight) ∨
      ∃ s ∈ b.servers, Eligible b s ∧ lowestPass b ≤ s.weight.toInt := by
  have hpos := position_lt hb hn
  have hlevel := fun w => exists_level_le_iff (weightGcd b.servers).toInt
    (currentWeight_nonneg hb) b.currentWeight.toInt_lt hmax
    (maxWeight b.servers).toInt_lt w
  constructor
  · rintro ⟨q, hwalk⟩
    have helig := hwalk.eligible hb hmax
    obtain ⟨hlt, _, hwt⟩ := hwalk
    cases hpass : q / b.servers.length with
    | zero =>
      -- the hit is in the current pass
      have hq : q < b.servers.length := by
        rcases Nat.div_eq_zero_iff.mp hpass with h0 | hq
        · omega
        · exact hq
      have hcur : passWeight b q = b.currentWeight := by
        unfold passWeight
        rw [hpass]
        rfl
      rw [hcur] at hwt
      exact inl ⟨_, (mem_unvisited_iff hn).mpr ⟨q, hlt, hq, rfl⟩, helig, hwt⟩
    | succ k =>
      rw [le_iff_toInt_le, passWeight_toInt hb hmax, hpass] at hwt
      exact inr ⟨_, serverAt_mem b hn q, helig, (hlevel _).mp ⟨k, hwt⟩⟩
  · rintro (⟨s, hs, helig, hwt⟩ | ⟨s, hs, helig, hlow⟩)
    · obtain ⟨q, hlt, hq, rfl⟩ := (mem_unvisited_iff hn).mp hs
      refine ⟨q, hlt, helig.1, ?_⟩
      unfold passWeight
      rw [Nat.div_eq_of_lt hq]
      exact hwt
    · obtain ⟨k, hk⟩ := (hlevel _).mpr hlow
      obtain ⟨j, hj, rfl⟩ := mem_iff_getElem.mp hs
      -- position `j` of the pass of level `k + 1`
      have hdiv : (j + b.servers.length * (k + 1)) / b.servers.length = k + 1 := by
        rw [Nat.add_mul_div_left _ _ hn, Nat.div_eq_of_lt hj, Nat.zero_add]
      have hserver : serverAt b hn (j + b.servers.length * (k + 1)) = b.servers[j] := by
        simp [serverAt, Nat.mod_eq_of_lt hj]
      refine ⟨j + b.servers.length * (k + 1), ?_, ?_, ?_⟩
      · have hone : b.servers.length * 1 ≤ b.servers.length * (k + 1) :=
          Nat.mul_le_mul_left _ (by omega)
        omega
      · rw [hserver]; exact helig.1
      · rw [hserver, le_iff_toInt_le, passWeight_toInt hb hmax, hdiv]
        exact hk

/-! ## When `nextServer` answers -/

theorem eligible_pos_maxWeight (hs : s ∈ b.servers)
    (helig : Eligible b s) : 0 < (maxWeight b.servers).toInt :=
  lt_of_lt_of_le (lt_iff_toInt_lt.mp helig.2) (le_maxWeight hs)

theorem mem_servers_of_mem_unvisited (hs : s ∈ unvisited b) : s ∈ b.servers := by
  unfold unvisited at hs
  split at hs
  · cases hs
  · exact mem_of_mem_drop hs

/-- The tests before the loop fail only when no server is eligible. -/
theorem not_eligible_of_refuses (h : Refuses b) (hs : s ∈ b.servers) : ¬ Eligible b s := by
  intro helig
  rcases h with hzero | hzero | hzero
  · rw [length_eq_zero_iff.mp hzero] at hs
    cases hs
  · have hup := helig.1
    rw [Finset.card_eq_zero.mp hzero] at hup
    exact absurd hup (Finset.notMem_empty _)
  · have hpos := eligible_pos_maxWeight hs helig
    rw [hzero] at hpos
    exact absurd hpos (by decide)

theorem nextServer_of_refuses (h : Refuses b) :
    ∃ e, e ≠ .indexOutOfRange ∧ ∀ fuel, nextServer fuel b = some (.error e, b) := by
  unfold nextServer
  by_cases hempty : b.servers.length = 0 ∨ b.status.card = 0
  · exact ⟨.noServersInPool, by decide, fun fuel => by rw [if_pos hempty]⟩
  · have hmax : maxWeight b.servers = 0 := by
      rcases h with h | h | h
      · exact absurd (inl h) hempty
      · exact absurd (inr h) hempty
      · exact h
    exact ⟨.allServersZeroWeight, by decide, fun fuel => by rw [if_neg hempty, if_pos hmax]⟩

theorem nextServer_of_not_refuses (h : ¬ Refuses b) (fuel : Nat) :
    nextServer fuel b = iterate (pick (maxWeight b.servers) (weightGcd b.servers)) fuel b := by
  have hempty : ¬ (b.servers.length = 0 ∨ b.status.card = 0) := fun hempty =>
    h (or_assoc.mp (inl hempty))
  have hmax : maxWeight b.servers ≠ 0 := fun hmax => h (inr (inr hmax))
  unfold nextServer
  rw [if_neg hempty, if_neg hmax]

/-- Past the tests, `nextServer` answers right exactly when the walk comes to a
    hit: it never fails there, and all it can return is eligible. -/
theorem answersRight_iff_of_started (hb : Started b) : AnswersRight b ↔ Meets b := by
  by_cases href : Refuses b
  · refine ⟨fun _ => inl href, fun _ => ?_⟩
    obtain ⟨e, he, hnext⟩ := nextServer_of_refuses href
    refine ⟨0, .error e, b, hnext 0, ?_, fun _ => ⟨e, he, rfl⟩⟩
    rintro ⟨s, hs, helig⟩
    exact absurd helig (not_eligible_of_refuses href hs)
  · have hn : 0 < b.servers.length := Nat.pos_of_ne_zero (fun h => href (inl h))
    have hnext := nextServer_of_not_refuses href
    by_cases hmax : 0 < (maxWeight b.servers).toInt
    · have hhits := exists_walkHits_iff hb hn hmax
      constructor
      · rintro ⟨fuel, r, b', hr, _, _⟩
        by_contra hcon
        have hno : ∀ q, ¬ WalkHits b hn q := fun q hq => hcon (inr (hhits.mp ⟨q, hq⟩))
        rw [hnext, pick_diverges_of_no_hit hb hn hno fuel] at hr
        cases hr
      · rintro (h | h)
        · exact absurd h href
        · obtain ⟨q, hq, fuel, hret⟩ := pick_returns_of_hit hb hn (hhits.mpr h)
          have helig := hq.eligible hb hmax
          refine ⟨fuel, _, _, (hnext fuel).trans hret, ?_, ?_⟩
          · intro _
            exact ⟨_, serverAt_mem b hn q, rfl, helig⟩
          · intro hnone
            exact absurd helig (hnone _ (serverAt_mem b hn q))
    · -- all weights are negative: an error is due, and the loop has none
      have hnone : ∀ s ∈ b.servers, ¬ Eligible b s := fun s hs helig =>
        hmax (eligible_pos_maxWeight hs helig)
      constructor
      · rintro ⟨fuel, r, b', hr, _, herr⟩
        obtain ⟨e, _, rfl⟩ := herr hnone
        have hret : Returns (pick (maxWeight b.servers) (weightGcd b.servers)) b (.error e, b') :=
          ⟨fuel, by rw [← hnext]; exact hr⟩
        by_cases hhit : ∃ q, WalkHits b hn q
        · obtain ⟨q, _, hok⟩ := pick_returns_of_hit hb hn hhit
          cases hret.unique hok
        · exact absurd hret
            ((pick_diverges_of_no_hit hb hn (fun q hq => hhit ⟨q, hq⟩)).not_returns _)
      · rintro (h | ⟨s, hs, helig, _⟩ | ⟨s, hs, helig, _⟩)
        · exact absurd h href
        · exact absurd helig (hnone s (mem_servers_of_mem_unvisited hs))
        · exact absurd helig (hnone s hs)

/-- Without negative weights the gcd divides every weight, so an eligible server
    is always heavy enough. -/
theorem meets_iff_of_nonneg (hpos : ∀ s ∈ b.servers, 0 ≤ s.weight.toInt) :
    Meets b ↔ Refuses b ∨ ∃ s ∈ b.servers, Eligible b s := by
  constructor
  · rintro (h | ⟨s, hs, helig, _⟩ | ⟨s, hs, helig, _⟩)
    · exact inl h
    · exact inr ⟨s, mem_servers_of_mem_unvisited hs, helig⟩
    · exact inr ⟨s, hs, helig⟩
  · rintro (h | ⟨s, hs, helig⟩)
    · exact inl h
    · refine inr (inr ⟨s, hs, helig, ?_⟩)
      obtain ⟨hg, hdvd⟩ := weightGcd_dvd hpos hs
      have hwt : 0 < s.weight.toInt := lt_iff_toInt_lt.mp helig.2
      have hgpos : 0 < (weightGcd b.servers).toInt := by
        refine lt_of_le_of_ne hg fun hzero => ?_
        rw [← hzero, zero_dvd_iff] at hdvd
        omega
      exact (lowest_le_step hgpos _).trans (Int.le_of_dvd hwt hdvd)

theorem nextServer_started {b b' : WRRLoadBalancer H} {fuel : Nat}
    {r : Except Error (Server H)} (hb : Started b) (hmeets : Meets b)
    (h : nextServer fuel b = some (r, b')) : Started b' := by
  by_cases href : Refuses b
  · obtain ⟨e, _, hnext⟩ := nextServer_of_refuses href
    rw [hnext] at h
    cases h
    exact hb
  · have hn : 0 < b.servers.length := Nat.pos_of_ne_zero (fun h => href (inl h))
    have hmax : 0 < (maxWeight b.servers).toInt := by
      rcases hmeets with h | ⟨s, hs, helig, _⟩ | ⟨s, hs, helig, _⟩
      · exact absurd h href
      · exact eligible_pos_maxWeight (mem_servers_of_mem_unvisited hs) helig
      · exact eligible_pos_maxWeight hs helig
    have hhits := (exists_walkHits_iff hb hn hmax).mpr (hmeets.resolve_left href)
    obtain ⟨q, hq, hret⟩ := pick_returns_of_hit hb hn hhits
    -- the result does not depend on the fuel
    have hsame : (r, b') = (.ok (serverAt b hn q), stateAt b q) :=
      Returns.unique ⟨fuel, by rw [← nextServer_of_not_refuses href]; exact h⟩ hret
    cases hsame
    have hindex := Nat.mod_lt q hn
    exact inr ⟨Int.natCast_nonneg _, Int.ofNat_lt.mpr hindex, passWeight_pos hb hn hmax hq.1⟩

/-- In a run whose calls of `nextServer` all meet the condition, the first pass
    has not begun or the weight of the pass is positive. -/
theorem reachable_started (h : ((tcpWrr H).restrict MeetsAtCalls).Reachable b) : Started b := by
  apply System.invariant Started ?_ ?_ h
  · intro b hinit
    rw [show b = newWRRLoadBalancer from hinit]
    exact inl ⟨rfl, rfl⟩
  · intro b call b' hb hstep
    cases call with
    | add name handler wt =>
      rw [show b' = add b name handler wt from hstep.2]
      rcases hb with h | ⟨h₁, h₂, h₃⟩
      · exact inl h
      · refine inr ⟨h₁, ?_, h₃⟩
        simp only [add, length_append, length_singleton]
        omega
    | setStatus child up =>
      rw [show b' = (setStatus b child up).1 from hstep.2]
      exact hb
    | nextServer =>
      obtain ⟨hmeets, fuel, r, hnext⟩ := hstep
      exact nextServer_started hb hmeets hnext

/-- **`nextServer` answers right exactly in the states of `Meets`**, along every
    run whose earlier calls of `nextServer` were made in such states. -/
theorem nextServer_answers_iff_meets {b : WRRLoadBalancer H}
    (hreach : ((tcpWrr H).restrict MeetsAtCalls).Reachable b) : AnswersRight b ↔ Meets b :=
  answersRight_iff_of_started (reachable_started hreach)

/-- A pool of a server without weight and a server of weight 5, both up. -/
def unevenPair : WRRLoadBalancer Unit :=
  add (add newWRRLoadBalancer "a" () (some 0)) "b" () (some 5)

theorem unevenPair_reachable : ((tcpWrr Unit).restrict MeetsAtCalls).Reachable unevenPair := by
  have hnew : ((tcpWrr Unit).restrict MeetsAtCalls).Reachable newWRRLoadBalancer := .init rfl
  have hone : ((tcpWrr Unit).restrict MeetsAtCalls).Reachable
      (add newWRRLoadBalancer "a" () (some 0)) :=
    .step (.add "a" () (some 0)) hnew ⟨trivial, rfl⟩
  exact .step (.add "b" () (some 5)) hone ⟨trivial, rfl⟩

/-- **Without negative weights** `nextServer` answers right exactly when the tests refuse or some
    server is eligible, along the same runs. -/
theorem nextServer_answers_of_nonneg {b : WRRLoadBalancer H}
    (hreach : ((tcpWrr H).restrict MeetsAtCalls).Reachable b)
    (hpos : ∀ s ∈ b.servers, 0 ≤ s.weight.toInt) :
    AnswersRight b ↔ Refuses b ∨ ∃ s ∈ b.servers, Eligible b s :=
  (answersRight_iff_of_started (reachable_started hreach)).trans (meets_iff_of_nonneg hpos)

theorem unevenPair_eligible : AnswersRight unevenPair :=
  (nextServer_answers_of_nonneg unevenPair_reachable (by decide)).mpr (by decide)

theorem unevenPair_answers :
    ((tcpWrr Unit).restrict MeetsAtCalls).Reachable unevenPair ∧ AnswersRight unevenPair :=
  ⟨unevenPair_reachable,
    (nextServer_answers_iff_meets unevenPair_reachable).mpr (by decide +kernel)⟩

/-- Once `b` is down, the server that is up is lighter than every pass: the
    loop of `nextServer` never ends, where an error is due. -/
theorem unevenPair_hangs :
    (tcpWrr Unit).Reachable (setStatus unevenPair "b" false).1 ∧
      (∀ fuel, nextServer fuel (setStatus unevenPair "b" false).1 = none) ∧
      ¬ AnswersRight (setStatus unevenPair "b" false).1 := by
  have hreach : ((tcpWrr Unit).restrict MeetsAtCalls).Reachable
      (setStatus unevenPair "b" false).1 :=
    .step (.setStatus "b" false) unevenPair_reachable ⟨trivial, rfl⟩
  have hb := reachable_started hreach
  have hn : 0 < (setStatus unevenPair "b" false).1.servers.length := by decide
  have hhang : ∀ fuel, nextServer fuel (setStatus unevenPair "b" false).1 = none := by
    intro fuel
    apply pick_diverges_of_no_hit hb hn
    intro q hq
    apply absurd ((exists_walkHits_iff hb hn (by decide +kernel)).mp ⟨q, hq⟩)
    decide +kernel
  refine ⟨hreach.of_restrict, hhang, ?_⟩
  rintro ⟨fuel, r, b', hnext, _⟩
  rw [hhang fuel] at hnext
  cases hnext

end Ingress.Tcp
