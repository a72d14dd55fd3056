import Ingress.LoadBalancer.Status
import Mathlib.Analysis.SpecialFunctions.Log.Basic

/-! # Rendezvous Hashing

    The balancer of `pkg/server/service/loadbalancer/hrw`.  `nextServer` scores
    every handler that is up and not fenced for the client, and keeps the first
    one of greatest score.  Its search starts from score 0 and no handler at all.

    * `Balancer`, `add`, `setStatus`, `getNodeScore`, `nextServer`: the code.
      The search takes the score as a parameter.
    * `search_eq_argmax`: the search is the first maximum of the positive scores.
    * `nextServer_finds_iff`: when a server is found among the available ones.
    * `nextServer_disturbs_minimally`: what a change of status does to clients. -/

open List

namespace Ingress.Hrw

variable {H : Type}

/-! ## The code -/

/-- A handler.  `Add` ignores the non-positive weights. -/
structure NamedHandler (H : Type) where
  handler : H
  name : String
  weight : Int
  weight_pos : 0 < weight

structure Balancer (H : Type) where
  handlers : List (NamedHandler H)
  status : StatusMap
  fenced : Finset String

/-- What `nextServer` fails with.  `nilPointer` is the panic of the log line that
    reads `handler.name`. -/
inductive Error where
  | noAvailableServer
  | nilPointer
  deriving DecidableEq, Repr

def new : Balancer H where
  handlers := []
  status := ∅
  fenced := ∅

/-- `Add`.  A missing weight is 1. -/
def add (b : Balancer H) (name : String) (handler : H) (weight : Option Int)
    (fenced : Bool) : Balancer H :=
  if hw : weight.getD 1 ≤ 0 then b -- non-positive weight is meaningless
  else
    { handlers := b.handlers ++ [⟨handler, name, weight.getD 1, not_le.mp hw⟩]
      status := insert name b.status
      fenced := if fenced then insert name b.fenced else b.fenced }

/-- `SetStatus`, with the value the updaters are called with. -/
def setStatus (b : Balancer H) (childName : String) (up : Bool) : Balancer H × Option Bool :=
  ({ b with status := (b.status.setStatus childName up).1 },
    (b.status.setStatus childName up).2)

/-- The handlers `nextServer` chooses from: up and not fenced. -/
def healthy (b : Balancer H) : List (NamedHandler H) :=
  b.handlers.filter fun h => h.name ∈ b.status ∧ h.name ∉ b.fenced

/-- `getNodeScore`, in real arithmetic: `1 / -log (sum / 2^64)` times the weight,
    where `sum` is the hash of the client and the name. -/
noncomputable def getNodeScore (hash : String → UInt64) (h : NamedHandler H)
    (src : String) : EReal :=
  let sum := hash (src ++ h.name)
  if sum = 0 then 0 -- `-log 0` is infinite
  -- `float64(sum)` is `2^64`, and one over the negated zero `-log 1` is `-Inf`
  else if 2 ^ 64 - 2 ^ 10 ≤ sum.toNat then ⊥
  else ((1 / -Real.log (sum.toNat / 2 ^ 64) * h.weight : ℝ) : EReal)

section
variable {S : Type} [LinearOrder S] [Zero S] (getNodeScore : NamedHandler H → String → S)

/-- One turn of the search of `nextServer`, on the handler and the score so far. -/
def better (ip : String) (best : Option (NamedHandler H) × S) (h : NamedHandler H) :
    Option (NamedHandler H) × S :=
  if best.2 < getNodeScore h ip then (some h, getNodeScore h ip) else best

def nextServer (b : Balancer H) (ip : String) : Except Error (NamedHandler H) :=
  if (healthy b).length = 0 then .error .noAvailableServer
  else
    match ((healthy b).foldl (better getNodeScore ip) (none, 0)).1 with
    | none => .error .nilPointer
    | some h => .ok h

end

/-! ## The search -/

variable {S : Type} [LinearOrder S] [Zero S] {score : NamedHandler H → String → S}
  {b : Balancer H} {ip : String}

/-- The search is the first maximum of the positive scores. -/
theorem search_eq_argmax (l : List (NamedHandler H)) :
    l.foldl (better score ip) (none, 0) =
      ((l.filter (0 < score · ip)).argmax (score · ip),
        ((l.filter (0 < score · ip)).argmax (score · ip)).elim 0 (score · ip)) := by
  -- from the right, as the loop goes
  induction l using reverseRecOn with
  | nil => rfl
  | append_singleton l h ih =>
    rw [foldl_append, ih, filter_append, foldl_cons, foldl_nil, better]
    by_cases hpos : 0 < score h ip
    · have hfilter : [h].filter (0 < score · ip) = [h] := by simp [hpos]
      rw [hfilter, argmax_concat]
      cases (l.filter (0 < score · ip)).argmax (score · ip) with
      | none => simp [hpos]
      | some best => by_cases hlt : score best ip < score h ip <;> simp [hlt]
    · have hfilter : [h].filter (0 < score · ip) = [] := by simp [hpos]
      rw [hfilter, append_nil, if_neg]
      cases hbest : (l.filter (0 < score · ip)).argmax (score · ip) with
      | none => exact hpos
      | some best =>
        have hbestPos : 0 < score best ip := by
          simpa using (mem_filter.mp (argmax_mem hbest)).2
        exact fun hlt => hpos (hbestPos.trans hlt)

variable {h : NamedHandler H}

theorem nextServer_eq_ok :
    nextServer score b ip = .ok h ↔
      ((healthy b).filter (0 < score · ip)).argmax (score · ip) = some h := by
  rw [nextServer, search_eq_argmax]
  split
  · next hnil => simp [length_eq_zero_iff.mp hnil]
  · cases ((healthy b).filter (0 < score · ip)).argmax (score · ip) <;> simp

/-- A handler that is returned is available, and no available one beats it. -/
theorem maximal_of_nextServer (hok : nextServer score b ip = .ok h) :
    h ∈ healthy b ∧ 0 < score h ip ∧ ∀ h' ∈ healthy b, score h' ip ≤ score h ip := by
  rw [nextServer_eq_ok] at hok
  obtain ⟨hmem, hpos⟩ := mem_filter.mp (argmax_mem hok)
  have hpos : 0 < score h ip := by simpa using hpos
  refine ⟨hmem, hpos, ?_⟩
  intro h' hmem'
  by_cases hpos' : 0 < score h' ip
  · exact le_of_mem_argmax (f := (score · ip))
      (mem_filter.mpr ⟨hmem', decide_eq_true hpos'⟩) hok
  · exact (not_lt.mp hpos').trans hpos.le

theorem exists_nextServer (hmem : h ∈ healthy b) (hpos : 0 < score h ip) :
    ∃ h, nextServer score b ip = .ok h := by
  simp only [nextServer_eq_ok, ← Option.ne_none_iff_exists']
  rw [Ne, argmax_eq_none]
  exact ne_nil_of_mem (mem_filter.mpr ⟨hmem, decide_eq_true hpos⟩)

/-! ## Finding a server -/

/-- The sums that give a positive score. -/
def Proper (sum : UInt64) : Prop :=
  sum ≠ 0 ∧ sum.toNat < 2 ^ 64 - 2 ^ 10

theorem getNodeScore_pos {hash : String → UInt64} {src : String} :
    0 < getNodeScore hash h src ↔ Proper (hash (src ++ h.name)) := by
  unfold getNodeScore Proper
  dsimp only
  split
  · next hzero => simp [hzero]
  · next hzero =>
    split
    · next hbig => exact iff_of_false not_lt_bot fun hproper => hproper.2.not_ge hbig
    · next hbig =>
      have hsum : (0 : ℝ) < (hash (src ++ h.name)).toNat := by
        have : (hash (src ++ h.name)).toNat ≠ 0 := fun h0 => hzero (UInt64.toNat_inj.mp h0)
        exact_mod_cast Nat.pos_of_ne_zero this
      have hlt : ((hash (src ++ h.name)).toNat : ℝ) < 2 ^ 64 := by
        exact_mod_cast (not_le.mp hbig).trans (by norm_num)
      have hlog : Real.log ((hash (src ++ h.name)).toNat / 2 ^ 64) < 0 :=
        Real.log_neg (by positivity) ((div_lt_one (by positivity)).mpr hlt)
      have hwt : (0 : ℝ) < h.weight := by exact_mod_cast h.weight_pos
      have hscore := mul_pos (one_div_pos.mpr (neg_pos.mpr hlog)) hwt
      simpa only [EReal.coe_pos, hscore, hzero, ne_eq, not_false_eq_true, true_and, true_iff]
        using not_le.mp hbig

/-- Among the available handlers, one of maximal score is found exactly when one
    of them has a hash that is neither 0 nor rounds to `2^64`.  For all other
    hashes the search keeps no handler, and the log line panics. -/
theorem nextServer_finds_iff (hash : String → UInt64) (b : Balancer H) (ip : String) :
    (∃ h, nextServer (getNodeScore hash) b ip = .ok h ∧ h ∈ healthy b ∧
        ∀ h' ∈ healthy b, getNodeScore hash h' ip ≤ getNodeScore hash h ip) ↔
      ∃ h ∈ healthy b, Proper (hash (ip ++ h.name)) := by
  constructor
  · rintro ⟨h, hok, hmem, -⟩
    exact ⟨h, hmem, getNodeScore_pos.mp (maximal_of_nextServer hok).2.1⟩
  · rintro ⟨h, hmem, hproper⟩
    obtain ⟨h', hok⟩ := exists_nextServer hmem (getNodeScore_pos.mpr hproper)
    obtain ⟨hmem', -, hmax⟩ := maximal_of_nextServer hok
    exact ⟨h', hok, hmem', hmax⟩

/-- One server, up and not fenced, and a client that hashes to 0 with it. -/
theorem nextServer_panics_on_zero_hash :
    healthy (add new "a" () none false) = [⟨(), "a", 1, by decide⟩] ∧
      nextServer (getNodeScore fun _ => 0) (add new "a" () none false) "10.0.0.1" =
        .error .nilPointer := by
  constructor
  · rfl
  · simp [nextServer, healthy, add, new, better, getNodeScore]

/-! ## Changes of status -/

/-- The balancer after a list of calls of `SetStatus`. -/
def setStatuses (b : Balancer H) (changes : List (String × Bool)) : Balancer H :=
  changes.foldl (fun b change => (setStatus b change.1 change.2).1) b

/-- Every name that was changed was last set to what it is in `b`. -/
def Reverted (b : Balancer H) (changes : List (String × Bool)) : Prop :=
  ∀ name up, changes.reverse.lookup name = some up → b.status.holds name = up

/-- The client's server is its one maximum, so it stays when the servers of
    another name are taken away. -/
theorem nextServer_eq_of_away {st st' : StatusMap} {s : String}
    (hpos : ∀ h ∈ b.handlers, 0 < score h ip)
    (hinj : ∀ h ∈ b.handlers, ∀ h' ∈ b.handlers, score h ip = score h' ip → h = h')
    (hsub : st' ⊆ st) (hothers : ∀ name ∈ st, name ≠ s → name ∈ st')
    (haway : ∀ h, nextServer score { b with status := st } ip = .ok h → h.name ≠ s) :
    nextServer score { b with status := st' } ip =
      nextServer score { b with status := st } ip := by
  have hhealthy : ∀ h ∈ healthy { b with status := st' }, h ∈ healthy { b with status := st } := by
    intro h hmem
    simp only [healthy, mem_filter, decide_eq_true_eq] at hmem ⊢
    exact ⟨hmem.1, hsub hmem.2.1, hmem.2.2⟩
  cases hb : healthy { b with status := st } with
  | nil =>
    rw [hb] at hhealthy
    have hb' := eq_nil_iff_forall_not_mem.mpr fun h hmem => nomatch hhealthy h hmem
    simp only [nextServer, hb, hb']
  | cons h₀ _ =>
    have hmem₀ : h₀ ∈ healthy { b with status := st } := by simp [hb]
    obtain ⟨h, hok⟩ := exists_nextServer hmem₀ (hpos h₀ (mem_of_mem_filter hmem₀))
    obtain ⟨hmem, hh, hmax⟩ := maximal_of_nextServer hok
    have hstays : h ∈ healthy { b with status := st' } := by
      simp only [healthy, mem_filter, decide_eq_true_eq] at hmem ⊢
      exact ⟨hmem.1, hothers _ hmem.2.1 (haway h hok), hmem.2.2⟩
    obtain ⟨h', hok'⟩ := exists_nextServer hstays hh
    obtain ⟨hmem', -, hmax'⟩ := maximal_of_nextServer hok'
    -- each of the two is a maximum where the other one is available
    have heq : score h' ip = score h ip := le_antisymm (hmax h' (hhealthy h' hmem')) (hmax' h hstays)
    rw [hok, hok', hinj h' (mem_of_mem_filter hmem') h (mem_of_mem_filter hmem) heq]

theorem setStatuses_eq (changes : List (String × Bool)) :
    setStatuses b changes = { b with status := b.status.recordAll changes } := by
  induction changes generalizing b with
  | nil => rfl
  | cons change changes ih => exact ih

theorem setStatuses_reverted {changes : List (String × Bool)} (hrev : Reverted b changes) :
    setStatuses b changes = b := by
  have hstat : b.status.recordAll changes = b.status := by
    ext name
    rw [← StatusMap.holds_eq_true, ← StatusMap.holds_eq_true, StatusMap.holds_recordAll]
    cases hlast : changes.reverse.lookup name with
    | none => rfl
    | some up => rw [Option.getD_some, hrev name up hlast]
  rw [setStatuses_eq, hstat]

/-- For positive scores without ties: a server that goes down moves only its own
    clients, one that comes up moves clients only to itself, and every client is
    back on its server once all the changes are reverted. -/
theorem nextServer_disturbs_minimally (b : Balancer H) (ip : String)
    (hpos : ∀ h ∈ b.handlers, 0 < score h ip)
    (hinj : ∀ h ∈ b.handlers, ∀ h' ∈ b.handlers, score h ip = score h' ip → h = h') :
    (∀ s, (∀ h, nextServer score b ip = .ok h → h.name ≠ s) →
      nextServer score (setStatus b s false).1 ip = nextServer score b ip) ∧
    (∀ s, (∀ h, nextServer score (setStatus b s true).1 ip = .ok h → h.name ≠ s) →
      nextServer score b ip = nextServer score (setStatus b s true).1 ip) ∧
    ∀ changes, Reverted b changes →
      nextServer score (setStatuses b changes) ip = nextServer score b ip := by
  refine ⟨fun s haway => ?down, fun s haway => ?up, fun changes hrev => ?reverted⟩
  case down =>
    apply nextServer_eq_of_away hpos hinj (Finset.erase_subset s b.status) _ haway
    exact fun name hmem hne => Finset.mem_erase.mpr ⟨hne, hmem⟩
  case up =>
    -- here the balancer with `s` up is the larger one
    apply nextServer_eq_of_away hpos hinj (Finset.subset_insert s b.status) _ haway
    exact fun name hmem hne => (Finset.mem_insert.mp hmem).resolve_left hne
  case reverted => rw [setStatuses_reverted hrev]

theorem nextServer_disturbs_minimally_two :
    nextServer (fun h _ => h.weight) (setStatus (add (add new "a" () none false) "b" () (some 2)
        false) "a" false).1 "10.0.0.1" = .ok ⟨(), "b", 2, by decide⟩ :=
  (nextServer_disturbs_minimally
    (add (add new "a" () none false) "b" () (some 2) false) "10.0.0.1"
    (by decide) (by simp [add, new])).1 "a" (by
      intro h hok
      obtain rfl : _ = h := Except.ok.inj hok
      decide)

end Ingress.Hrw
