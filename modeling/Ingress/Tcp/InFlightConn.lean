import Ingress.Framework.System
import Mathlib.Tactic

/-! # Connection Limit

    The middleware `inFlightConn` counts the connections of every remote IP that are inside the
    next handler, and refuses those above an amount.

    * `limiter`: the interleavings of the calls of `ServeTCP`.
    * `limit_kept`: the limit holds in every run.
    * `tracks_iff`: while no call is on its way in or out the numbers are right, but the entry
      of an IP stays when its last connection ends. -/

open LTS Function List

namespace Ingress.InFlightConn

structure Config where
  /-- The IP that `net.SplitHostPort` finds in a remote address. -/
  splitHostPort : String → Option String
  maxConnections : ℤ

/-- The map of the middleware, and the IPs of the calls of `ServeTCP` by the place they are at. -/
structure State where
  connections : String → Option ℤ
  /-- Behind `increment`, before `next.ServeTCP` is called. -/
  entering : List String
  /-- Inside `next.ServeTCP`. -/
  inside : List String
  /-- `next.ServeTCP` has returned or panicked, and the deferred `decrement` has not run. -/
  leaving : List String
  /-- All connections that were let in so far. -/
  admitted : List String

variable (cfg : Config)

/-- The map after `increment`, unless it returns an error.  Below `maxConnections` nothing
    overflows. -/
def increment (m : String → Option ℤ) (ip : String) : Option (String → Option ℤ) :=
  if (m ip).getD 0 ≥ cfg.maxConnections then none
  else some (update m ip (some ((m ip).getD 0 + 1)))

def decrement (m : String → Option ℤ) (ip : String) : String → Option ℤ :=
  if (m ip).getD 0 ≤ 0 then m else update m ip (some ((m ip).getD 0 - 1))

/-- `ServeTCP` up to `increment`; a connection that is not let in is closed. -/
def State.serveTCP (s : State) (remoteAddr : String) : State :=
  match cfg.splitHostPort remoteAddr with
  | none => s
  | some ip =>
    match increment cfg s.connections ip with
    | none => s
    | some m =>
      { s with connections := m, entering := ip :: s.entering, admitted := ip :: s.admitted }

/-- The steps of a call. -/
inductive Label where
  | serve (remoteAddr : String)
  | callNext (ip : String)
  /-- The next handler returns or panics. -/
  | nextEnds (ip : String)
  | decrement (ip : String)

/-- The calls of `ServeTCP`.  The mutex makes `increment` and `decrement` single steps. -/
def limiter : System State Label where
  init := fun s => s = ⟨fun _ => none, [], [], [], []⟩
  step := fun s label s' =>
    match label with
    | .serve remoteAddr => s' = s.serveTCP cfg remoteAddr
    | .callNext ip =>
      ip ∈ s.entering ∧ s' = { s with entering := s.entering.erase ip, inside := ip :: s.inside }
    | .nextEnds ip =>
      ip ∈ s.inside ∧ s' = { s with inside := s.inside.erase ip, leaving := ip :: s.leaving }
    | .decrement ip =>
      ip ∈ s.leaving ∧ s' = { s with
        connections := InFlightConn.decrement s.connections ip, leaving := s.leaving.erase ip }

/-- The map has the IPs of the connections inside the next handler, with their numbers, which
    are not above the amount; and a connection is refused only when as many are inside. -/
structure State.Tracks (s : State) : Prop where
  counts : ∀ ip, s.connections ip = if ip ∈ s.inside then some ↑(s.inside.count ip) else none
  bounded : ∀ ip, s.inside.count ip ≤ cfg.maxConnections
  refused : ∀ ip, increment cfg s.connections ip = none → s.inside.count ip = cfg.maxConnections

/-- The calls from `increment` to `decrement`. -/
def State.calls (s : State) : List String :=
  s.entering ++ s.inside ++ s.leaving

/-- What the map holds in fact. -/
structure Inv (s : State) : Prop where
  counts : ∀ ip, s.connections ip = if ip ∈ s.admitted then some ↑(s.calls.count ip) else none
  calls_admitted : ∀ ip ∈ s.calls, ip ∈ s.admitted
  bounded : ∀ ip, s.calls.count ip ≤ cfg.maxConnections

variable {cfg} {s s' : State}

theorem Inv.getD (h : Inv cfg s) (ip : String) : (s.connections ip).getD 0 = s.calls.count ip := by
  rw [h.counts]
  split
  · rfl
  · next hnot => simp [count_eq_zero_of_not_mem fun hmem => hnot (h.calls_admitted ip hmem)]

/-- A call that goes on to another place changes nothing here. -/
theorem Inv.perm (h : Inv cfg s) (hcalls : s'.calls ~ s.calls)
    (hmap : s'.connections = s.connections) (hadmitted : s'.admitted = s.admitted) :
    Inv cfg s' where
  counts ip := by rw [hmap, hadmitted, hcalls.count_eq, h.counts]
  calls_admitted ip hmem := hadmitted ▸ h.calls_admitted ip (hcalls.mem_iff.mp hmem)
  bounded ip := hcalls.count_eq ip ▸ h.bounded ip

/-- One more call. -/
theorem Inv.admit (h : Inv cfg s) {ip : String} (hroom : s.calls.count ip < cfg.maxConnections) :
    Inv cfg { s with
      connections := update s.connections ip (some (s.calls.count ip + 1))
      entering := ip :: s.entering
      admitted := ip :: s.admitted } := by
  have hcalls : ∀ entering admitted connections, State.calls ⟨connections, ip :: entering,
      s.inside, s.leaving, admitted⟩ = ip :: (entering ++ s.inside ++ s.leaving) :=
    fun _ _ _ => rfl
  refine ⟨fun other => ?_, fun other hmem => ?_, fun other => ?_⟩ <;> rw [hcalls] at * <;>
    by_cases hother : other = ip
  · simp [hother, State.calls]
  · simp [hother, h.counts, Ne.symm hother, State.calls]
  · exact mem_cons.mpr (.inl hother)
  · exact mem_cons_of_mem _ (h.calls_admitted other (mem_of_ne_of_mem hother hmem))
  · simpa [hother, State.calls] using hroom
  · simpa [Ne.symm hother, State.calls] using h.bounded other

theorem Inv.step {label : Label} (h : Inv cfg s) (hstep : (limiter cfg).step s label s') :
    Inv cfg s' := by
  cases label with
  | serve remoteAddr =>
    cases hstep
    unfold State.serveTCP
    split
    · exact h
    next ip _ =>
    split
    · exact h
    next m hm =>
    simp only [increment, h.getD] at hm
    split at hm
    · cases hm
    next hroom =>
    cases hm
    exact h.admit (not_le.mp hroom)
  | callNext ip =>
    obtain ⟨hmem, rfl⟩ := hstep
    refine h.perm (.append_right _ ?_) rfl rfl
    exact perm_middle.trans ((perm_cons_erase hmem).symm.append_right _)
  | nextEnds ip =>
    obtain ⟨hmem, rfl⟩ := hstep
    refine h.perm (perm_middle.trans ?_) rfl rfl
    exact (((perm_cons_erase hmem).append_left _).trans perm_middle).symm.append_right _
  | decrement ip =>
    obtain ⟨hmem, rfl⟩ := hstep
    have hsub : (s.entering ++ s.inside ++ s.leaving.erase ip).Sublist s.calls :=
      (Sublist.refl _).append (erase_sublist ..)
    have hcall : ip ∈ s.calls := mem_append_right _ hmem
    refine ⟨fun other => ?_, fun other hother => h.calls_admitted other (hsub.subset hother),
      fun other => (Int.ofNat_le.mpr (hsub.count_le other)).trans (h.bounded other)⟩
    have hcount := count_pos_iff.mpr hcall
    rw [InFlightConn.decrement, h.getD, if_neg (by omega)]
    by_cases hother : other = ip
    · subst hother
      have hpos := count_pos_iff.mpr hmem
      simp only [update_self, h.calls_admitted other hcall, if_true, State.calls, count_append,
        count_erase_self]
      congr 1
      omega
    · simp [hother, h.counts, State.calls]

theorem reachable_inv (hpos : 0 < cfg.maxConnections) (h : (limiter cfg).Reachable s) :
    Inv cfg s := by
  refine System.invariant (Inv cfg) ?_ (fun _ _ _ => Inv.step) h
  rintro s rfl
  exact ⟨by simp, by simp [State.calls], by simpa [State.calls] using hpos.le⟩

/-- A connection is refused exactly when as many calls of its IP are under way as may be. -/
theorem Inv.refused_iff (h : Inv cfg s) (ip : String) :
    increment cfg s.connections ip = none ↔ s.calls.count ip = cfg.maxConnections := by
  have hle := h.bounded ip
  rw [increment, h.getD]
  split
  · next hfull => exact ⟨fun _ => le_antisymm hle hfull, fun _ => rfl⟩
  · next hroom => exact ⟨nofun, fun heq => absurd heq.ge hroom⟩

theorem State.inside_count_le (s : State) (ip : String) : s.inside.count ip ≤ s.calls.count ip := by
  simp only [State.calls, count_append]
  omega

/-- **The limit is kept in every run**: no IP has more connections inside the next handler than
    the amount, and one more is refused exactly when as many of its calls are between
    `increment` and `decrement`. -/
theorem limit_kept (hpos : 0 < cfg.maxConnections) (h : (limiter cfg).Reachable s) (ip : String) :
    s.inside.count ip ≤ cfg.maxConnections ∧
      (increment cfg s.connections ip = none ↔ s.calls.count ip = cfg.maxConnections) := by
  have hinv := reachable_inv hpos h
  exact ⟨(Int.ofNat_le.mpr (s.inside_count_le ip)).trans (hinv.bounded ip), hinv.refused_iff ip⟩

/-- **What the limiter tracks**: the connections inside the next handler, unless a call is on its
    way in or out, or an IP that was let in has none left; its entry stays. -/
theorem tracks_iff (hpos : 0 < cfg.maxConnections) (h : (limiter cfg).Reachable s) :
    s.Tracks cfg ↔ s.entering = [] ∧ s.leaving = [] ∧ ∀ ip ∈ s.admitted, ip ∈ s.inside := by
  have hinv := reachable_inv hpos h
  constructor
  · intro htracks
    have hinside : ∀ ip ∈ s.admitted, ip ∈ s.inside ∧ s.calls.count ip = s.inside.count ip := by
      intro ip hmem
      have hcounts := hinv.counts ip
      rw [htracks.counts, if_pos hmem] at hcounts
      split at hcounts
      · next hmem => exact ⟨hmem, by simpa using hcounts.symm⟩
      · cases hcounts
    -- a call on its way is counted beside those inside
    have hnone : ∀ ip ∈ s.calls, ip ∉ s.entering ∧ ip ∉ s.leaving := by
      intro ip hmem
      have hcount := (hinside ip (hinv.calls_admitted ip hmem)).2
      simp only [State.calls, count_append] at hcount
      exact ⟨count_eq_zero.mp (by omega), count_eq_zero.mp (by omega)⟩
    refine ⟨eq_nil_iff_forall_not_mem.mpr fun ip hmem => ?_,
      eq_nil_iff_forall_not_mem.mpr fun ip hmem => ?_, fun ip hmem => (hinside ip hmem).1⟩
    · exact (hnone ip (by simp [State.calls, hmem])).1 hmem
    · exact (hnone ip (by simp [State.calls, hmem])).2 hmem
  · rintro ⟨hentering, hleaving, hinside⟩
    have hcalls : s.calls = s.inside := by simp [State.calls, hentering, hleaving]
    have hiff : ∀ ip, ip ∈ s.admitted ↔ ip ∈ s.inside := fun ip =>
      ⟨hinside ip, hcalls ▸ hinv.calls_admitted ip⟩
    exact ⟨fun ip => by simpa only [hiff, hcalls] using hinv.counts ip, hcalls ▸ hinv.bounded,
      fun ip => hcalls ▸ (hinv.refused_iff ip).mp⟩

/-- One connection for each IP. -/
def single : Config where
  splitHostPort := fun addr => if addr = "10.0.0.1:4000" then some "10.0.0.1" else none
  maxConnections := 1

/-- The connection of 10.0.0.1 is inside the next handler. -/
def served : State :=
  ⟨update (fun _ => none) "10.0.0.1" (some 1), [], ["10.0.0.1"], [], ["10.0.0.1"]⟩

theorem served_reachable : (limiter single).Reachable served :=
  .step (.callNext "10.0.0.1") (.step (.serve "10.0.0.1:4000") (.init rfl) rfl) ⟨by decide, rfl⟩

theorem served_limit : served.inside.count "10.0.0.1" ≤ single.maxConnections ∧
    increment single served.connections "10.0.0.1" = none :=
  have hkept := limit_kept (by decide) served_reachable "10.0.0.1"
  ⟨hkept.1, hkept.2.mpr (by decide)⟩

theorem served_tracks : served.Tracks single :=
  (tracks_iff (by decide) served_reachable).mpr (by decide)

/-- The entry of the only connection stays when it is closed. -/
theorem closed_not_tracked : ∃ s, (limiter single).Reachable s ∧ s.calls = [] ∧
    ¬ s.Tracks single := by
  refine ⟨_, .step (.decrement "10.0.0.1") (.step (.nextEnds "10.0.0.1") served_reachable
    ⟨by decide, rfl⟩) ⟨by decide, rfl⟩, by decide, fun h => ?_⟩
  exact absurd (h.counts "10.0.0.1") (by decide)

end Ingress.InFlightConn
