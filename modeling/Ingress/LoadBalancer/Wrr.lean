import Ingress.Framework.Heap
import Ingress.Framework.Loop
import Ingress.Framework.System
import Ingress.LoadBalancer.Status
import Mathlib.Tactic

/-! # HTTP Weighted Round Robin

    The earliest-deadline-first balancer of `pkg/server/service/loadbalancer/wrr`.
    Each pick takes the handler with the least deadline out of a heap and puts
    it back with its deadline moved by `1 / weight`; picks go on until the
    handler is up and not fenced.  Deadlines are exact rationals.

    * `Balancer`, `add`, `setStatus`, `nextServer`: the code.
    * `wrr`: the balancer as a transition system, one label per method.
    * `nextServer_answers_iff`: from every reachable state, when the loop of
      `nextServer` ends and answers right. -/

open List Loop LTS

namespace Ingress.Wrr

variable {H : Type}

/-! ## The code -/

/-- A handler of the heap.  `Add` ignores the non-positive weights. -/
structure NamedHandler (H : Type) where
  handler : H
  name : String
  weight : ℚ
  deadline : ℚ
  weight_pos : 0 < weight

/-- The balancer: the heap of handlers, the names that are up, the names that
    are terminating, and the deadline of the last pick. -/
structure Balancer (H : Type) where
  handlers : List (NamedHandler H)
  status : StatusMap
  fenced : Finset String
  curDeadline : ℚ

/-- What `nextServer` fails with.  `indexOutOfRange` is the panic of `heap.Pop`
    on an empty slice. -/
inductive Error where
  | noAvailableServer
  | indexOutOfRange
  deriving DecidableEq, Repr

def new : Balancer H where
  handlers := []
  status := ∅
  fenced := ∅
  curDeadline := 0

/-- `Less` of the heap. -/
def less (x y : NamedHandler H) : Bool :=
  x.deadline < y.deadline

open Heap

/-- `Add`.  A missing weight is 1. -/
def add (b : Balancer H) (name : String) (handler : H) (weight : Option Int)
    (fenced : Bool) : Balancer H :=
  let w := weight.getD 1
  if hw : w ≤ 0 then b -- non-positive weight is meaningless
  else
    let h : NamedHandler H :=
      { handler, name, weight := w, deadline := b.curDeadline + 1 / w,
        weight_pos := by exact_mod_cast not_le.mp hw }
    { b with
      handlers := push less b.handlers h
      status := insert name b.status
      fenced := if fenced then insert name b.fenced else b.fenced }

/-- `SetStatus`, with the value the updaters are called with. -/
def setStatus (b : Balancer H) (childName : String) (up : Bool) : Balancer H × Option Bool :=
  let (status, notify) := b.status.setStatus childName up
  ({ b with status }, notify)

/-- The handler is up and not fenced: the exit test of the loop. -/
def Eligible (b : Balancer H) (h : NamedHandler H) : Prop :=
  h.name ∈ b.status ∧ h.name ∉ b.fenced

instance (b : Balancer H) (h : NamedHandler H) : Decidable (Eligible b h) :=
  inferInstanceAs (Decidable (_ ∧ _))

/-- A popped handler with its next deadline. -/
def NamedHandler.advance (h : NamedHandler H) : NamedHandler H :=
  { h with deadline := h.deadline + 1 / h.weight }

/-- The balancer after handler `h` was popped and pushed back. -/
def repush (b : Balancer H) (h : NamedHandler H) (rest : List (NamedHandler H)) : Balancer H :=
  { b with
    curDeadline := h.deadline
    handlers := push less rest h.advance }

/-- One turn of the loop of `nextServer`. -/
def pick (b : Balancer H) : Turn (Balancer H) (Except Error (NamedHandler H) × Balancer H) :=
  match pop less b.handlers with
  | none => .leave (.error .indexOutOfRange, b)
  | some (h, rest) =>
    if Eligible b h then .leave (.ok h.advance, repush b h rest)
    else .again (repush b h rest)

/-- The test before the loop. -/
def Refuses (b : Balancer H) : Prop :=
  b.handlers.length = 0 ∨ b.status.card = 0 ∨ b.fenced.card = b.handlers.length

instance (b : Balancer H) : Decidable (Refuses b) :=
  inferInstanceAs (Decidable (_ ∨ _))

/-- `nextServer`, with a bound on the turns of its loop. -/
def nextServer (fuel : Nat) (b : Balancer H) :
    Option (Except Error (NamedHandler H) × Balancer H) :=
  if Refuses b then some (.error .noAvailableServer, b)
  else iterate pick fuel b

/-! ## Runs -/

/-- The calls a balancer can receive. -/
inductive Call (H : Type) where
  | add (name : String) (handler : H) (weight : Option Int) (fenced : Bool)
  | setStatus (childName : String) (up : Bool)
  | nextServer

/-- The balancer as a transition system.  A call of `nextServer` is a step only
    when it returns. -/
def wrr (H : Type) : System (Balancer H) (Call H) where
  init := fun b => b = new
  step := fun b call b' =>
    match call with
    | .add name handler weight fenced => b' = add b name handler weight fenced
    | .setStatus childName up => b' = (setStatus b childName up).1
    | .nextServer => ∃ fuel r, nextServer fuel b = some (r, b')

/-! ## The invariant -/

open NamedHandler

/-- The handlers form a heap by deadline, and only handlers are fenced. -/
structure WellFormed (b : Balancer H) : Prop where
  heap : Heap.IsHeap deadline b.handlers
  fenced : b.fenced ⊆ (b.handlers.map name).toFinset

theorem less_iff (x y : NamedHandler H) : less x y = true ↔ x.deadline < y.deadline := by
  simp [less]

theorem new_wellFormed : WellFormed (new : Balancer H) where
  heap := isHeap_nil
  fenced := by simp [new]

variable {b : Balancer H}

theorem add_wellFormed (hb : WellFormed b) (name : String) (handler : H)
    (wt : Option Int) (fenced : Bool) : WellFormed (add b name handler wt fenced) := by
  simp only [add]
  split
  · exact hb
  · next hw =>
    refine ⟨push_isHeap less_iff hb.heap _, ?_⟩
    -- a name is fenced only together with its handler
    intro x hx
    rw [mem_toFinset, ((push_perm less b.handlers _).map _).mem_iff]
    have hold : x ∈ b.fenced → x ∈ b.handlers.map NamedHandler.name := fun h =>
      mem_toFinset.mp (hb.fenced h)
    cases fenced with
    | false => exact .tail _ (hold hx)
    | true =>
      rcases Finset.mem_insert.mp hx with rfl | hx
      · exact .head _
      · exact .tail _ (hold hx)

theorem repush_perm (b : Balancer H) (h : NamedHandler H) (rest : List (NamedHandler H)) :
    (repush b h rest).handlers.Perm (h.advance :: rest) :=
  push_perm less rest h.advance

/-- **One turn of the loop**: the handler popped has the least deadline, and
    the balancer it leaves is well formed, with the same handlers up to that
    deadline. -/
theorem pick_spec (hb : WellFormed b) (hne : b.handlers ≠ []) :
    ∃ h rest, b.handlers.Perm (h :: rest) ∧
      (repush b h rest).handlers.Perm (h.advance :: rest) ∧
      (∀ y ∈ b.handlers, h.deadline ≤ y.deadline) ∧
      WellFormed (repush b h rest) ∧
      pick b = if Eligible b h then .leave (.ok h.advance, repush b h rest)
        else .again (repush b h rest) := by
  obtain ⟨h, rest, hpop, hperm, hheap, hmin⟩ := pop_spec less_iff hb.heap hne
  have hperm' := repush_perm b h rest
  refine ⟨h, rest, hperm, hperm', hmin, ⟨push_isHeap less_iff hheap _, ?_⟩, ?_⟩
  · -- the names in the heap are the same as before
    intro x hx
    have hnames : (b.handlers.map name).Perm
        ((repush b h rest).handlers.map name) :=
      (hperm.map _).trans (hperm'.map name).symm
    rw [mem_toFinset, ← hnames.mem_iff]
    exact mem_toFinset.mp (hb.fenced hx)
  · simp [pick, hpop]

theorem repush_ne_nil (b : Balancer H) (h : NamedHandler H) (rest : List (NamedHandler H)) :
    (repush b h rest).handlers ≠ [] := by
  intro hnil
  have hlen := (repush_perm b h rest).length_eq
  rw [hnil] at hlen
  cases hlen

/-- The loop only moves deadlines: it keeps the invariant and the two maps. -/
theorem pick_again_keeps {b b' : Balancer H} (hb : WellFormed b) (hne : b.handlers ≠ [])
    (h : pick b = .again b') :
    WellFormed b' ∧ b'.handlers ≠ [] ∧ b'.status = b.status ∧ b'.fenced = b.fenced ∧
      (b.handlers.map name).Perm (b'.handlers.map name) := by
  obtain ⟨x, rest, hperm, hperm', _, hwf, hpick⟩ := pick_spec hb hne
  rw [hpick] at h
  split at h
  · cases h
  · cases h
    refine ⟨hwf, repush_ne_nil b x rest, rfl, rfl, ?_⟩
    exact (hperm.map _).trans (hperm'.map name).symm

/-- **What `nextServer` comes to**: an invariant that is kept by the turns which pop a handler
    that is down or fenced gives what holds after the last turn. -/
theorem nextServer_post (inv : Balancer H → Prop)
    (post : Except Error (NamedHandler H) × Balancer H → Prop) (hb : WellFormed b) (hinv : inv b)
    (hrefuse : post (.error .noAvailableServer, b))
    (hagain : ∀ c x rest, inv c → c.handlers.Perm (x :: rest) →
      (∀ y ∈ c.handlers, x.deadline ≤ y.deadline) → ¬ Eligible c x → inv (repush c x rest))
    (hleave : ∀ c x rest, inv c → c.handlers.Perm (x :: rest) →
      (∀ y ∈ c.handlers, x.deadline ≤ y.deadline) → Eligible c x → WellFormed (repush c x rest) →
      post (.ok x.advance, repush c x rest))
    {fuel : Nat} {out : Except Error (NamedHandler H) × Balancer H}
    (h : nextServer fuel b = some out) : post out := by
  unfold nextServer at h
  split at h
  · cases h; exact hrefuse
  · next hguard =>
    have hne : b.handlers ≠ [] := by
      intro hnil
      exact hguard (.inl (by rw [hnil]; rfl))
    have hret : Returns pick b out := ⟨fuel, h⟩
    refine Returns.post (fun c => WellFormed c ∧ c.handlers ≠ [] ∧ inv c) post ?_ ?_
      ⟨hb, hne, hinv⟩ hret
    · intro c c' hc hturn
      obtain ⟨x, rest, hperm, _, hmin, hwf, hpick⟩ := pick_spec hc.1 hc.2.1
      rw [hpick] at hturn
      split at hturn
      · cases hturn
      · next helig =>
        cases hturn
        exact ⟨hwf, repush_ne_nil c x rest, hagain c x rest hc.2.2 hperm hmin helig⟩
    · intro c out hc hturn
      obtain ⟨x, rest, hperm, _, hmin, hwf, hpick⟩ := pick_spec hc.1 hc.2.1
      rw [hpick] at hturn
      split at hturn
      · next helig =>
        cases hturn
        exact hleave c x rest hc.2.2 hperm hmin helig hwf
      · cases hturn

theorem nextServer_wellFormed {b b' : Balancer H} {fuel : Nat}
    {r : Except Error (NamedHandler H)} (hb : WellFormed b)
    (h : nextServer fuel b = some (r, b')) : WellFormed b' :=
  nextServer_post (fun _ => True) (fun out => WellFormed out.2) hb trivial hb
    (fun _ _ _ _ _ _ _ => trivial) (fun _ _ _ _ _ _ _ hwf => hwf) h

theorem step_wellFormed {b b' : Balancer H} {call : Call H} (hb : WellFormed b)
    (hstep : (wrr H).step b call b') : WellFormed b' := by
  cases call with
  | add name handler wt fenced =>
    rw [show b' = add b name handler wt fenced from hstep]
    exact add_wellFormed hb name handler wt fenced
  | setStatus child up =>
    rw [show b' = (setStatus b child up).1 from hstep]
    exact ⟨hb.heap, hb.fenced⟩
  | nextServer =>
    obtain ⟨fuel, r, hnext⟩ := hstep
    exact nextServer_wellFormed hb hnext

/-- Every reachable balancer is well formed. -/
theorem reachable_wellFormed (h : (wrr H).Reachable b) : WellFormed b := by
  apply System.invariant WellFormed ?_ ?_ h
  · intro b hinit
    rw [show b = new from hinit]
    exact new_wellFormed
  · intro b call b' hb hstep
    exact step_wellFormed hb hstep

/-! ## Termination

    Fix an eligible handler with deadline `D`.  Until it is popped, every
    handler popped has a deadline of at most `D`, and popping it costs one of
    the `visits` that handler has left. -/

/-- How often a handler can still be popped with a deadline of at most `D`. -/
def visits (D : ℚ) (h : NamedHandler H) : Nat :=
  (⌊(D - h.deadline) * h.weight⌋ + 1).toNat

/-- The visits left over all handlers: the variant of the loop. -/
def totalVisits (D : ℚ) (hs : List (NamedHandler H)) : Nat :=
  (hs.map (visits D)).sum

variable {h : NamedHandler H}

theorem visits_advance {D : ℚ} (hle : h.deadline ≤ D) : visits D h.advance + 1 = visits D h := by
  have hw := h.weight_pos
  have hmove : (D - h.advance.deadline) * h.advance.weight = (D - h.deadline) * h.weight - 1 := by
    show (D - (h.deadline + 1 / h.weight)) * h.weight = (D - h.deadline) * h.weight - 1
    field_simp
    ring
  have hpos : 0 ≤ ⌊(D - h.deadline) * h.weight⌋ :=
    Int.floor_nonneg.mpr (mul_nonneg (sub_nonneg.mpr hle) hw.le)
  unfold visits
  rw [hmove, Int.floor_sub_one]
  omega

theorem totalVisits_repush {D : ℚ}
    {rest : List (NamedHandler H)} (hperm : b.handlers.Perm (h :: rest)) (hle : h.deadline ≤ D) :
    totalVisits D (repush b h rest).handlers < totalVisits D b.handlers := by
  have hold : totalVisits D b.handlers = visits D h + totalVisits D rest := by
    unfold totalVisits
    rw [(hperm.map (visits D)).sum_eq, map_cons, sum_cons]
  have hnew : totalVisits D (repush b h rest).handlers =
      visits D h.advance + totalVisits D rest := by
    unfold totalVisits
    rw [((repush_perm b h rest).map (visits D)).sum_eq, map_cons, sum_cons]
  have hvisit := visits_advance hle
  omega

/-- With an eligible handler in the heap the loop ends, and it ends with an
    eligible handler. -/
theorem pick_returns (hb : WellFormed b) {e : NamedHandler H}
    (he : e ∈ b.handlers) (helig : Eligible b e) :
    ∃ h b', Returns pick b (.ok h, b') ∧ h ∈ b'.handlers ∧ Eligible b h := by
  -- `e` stays in the heap with its deadline until it is popped
  let inv : Balancer H → Prop := fun c =>
    WellFormed c ∧ e ∈ c.handlers ∧ c.status = b.status ∧ c.fenced = b.fenced
  have helig' : ∀ c x, inv c → (Eligible c x ↔ Eligible b x) := by
    intro c x hc
    unfold Eligible
    rw [hc.2.2.1, hc.2.2.2]
  have hturn : ∀ c, inv c → ∃ h rest, c.handlers.Perm (h :: rest) ∧
      h.deadline ≤ e.deadline ∧
      ((pick c = .leave (.ok h.advance, repush c h rest) ∧ Eligible b h) ∨
        (pick c = .again (repush c h rest) ∧ inv (repush c h rest))) := by
    intro c hc
    obtain ⟨h, rest, hperm, hperm', hmin, hwf, hpick⟩ := pick_spec hc.1 (ne_nil_of_mem hc.2.1)
    refine ⟨h, rest, hperm, hmin e hc.2.1, ?_⟩
    by_cases hh : Eligible c h
    · rw [if_pos hh] at hpick
      exact .inl ⟨hpick, (helig' c h hc).mp hh⟩
    · rw [if_neg hh] at hpick
      refine .inr ⟨hpick, hwf, ?_, hc.2.2.1, hc.2.2.2⟩
      rcases mem_cons.mp (hperm.mem_iff.mp hc.2.1) with rfl | hrest
      · exact absurd ((helig' c e hc).mpr helig) hh
      · exact hperm'.mem_iff.mpr (.tail _ hrest)
  -- every turn before that uses up a visit
  have hinv : inv b := ⟨hb, he, rfl, rfl⟩
  obtain ⟨r, hr⟩ := returns_of_measure inv
    (fun c => totalVisits e.deadline c.handlers) (by
      intro c hc
      obtain ⟨h, rest, hperm, hle, hleave | hagain⟩ := hturn c hc
      · exact .inl ⟨_, hleave.1⟩
      · exact .inr ⟨_, hagain.1, hagain.2, totalVisits_repush hperm hle⟩) hinv
  have hpost : ∃ h b', r = (.ok h, b') ∧ h ∈ b'.handlers ∧ Eligible b h := by
    refine Returns.post inv
      (fun r => ∃ h b', r = (.ok h, b') ∧ h ∈ b'.handlers ∧ Eligible b h) ?_ ?_ hinv hr
    · intro c c' hc hagain'
      obtain ⟨h, rest, _, _, hleave | hagain⟩ := hturn c hc
      · rw [hleave.1] at hagain'; cases hagain'
      · rw [hagain.1] at hagain'; cases hagain'; exact hagain.2
    · intro c out hc hleave'
      obtain ⟨h, rest, _, _, hleave | hagain⟩ := hturn c hc
      · rw [hleave.1] at hleave'
        cases hleave'
        exact ⟨h.advance, repush c h rest, rfl,
          (repush_perm c h rest).mem_iff.mpr (.head _), hleave.2⟩
      · rw [hagain.1] at hleave'; cases hleave'
  obtain ⟨h, b', rfl, hmem, hh⟩ := hpost
  exact ⟨h, b', hr, hmem, hh⟩

/-! ## Divergence -/

/-- With no eligible handler in the heap the loop never ends. -/
theorem pick_diverges (hb : WellFormed b) (hne : b.handlers ≠ [])
    (hnone : ∀ h ∈ b.handlers, ¬ Eligible b h) : Diverges pick b := by
  refine diverges_of_invariant
    (fun c => WellFormed c ∧ c.handlers ≠ [] ∧ ∀ h ∈ c.handlers, ¬ Eligible c h) ?_
    ⟨hb, hne, hnone⟩
  intro c ⟨hwf, hcne, hcnone⟩
  obtain ⟨h, rest, hperm, _, _, _, hpick⟩ := pick_spec hwf hcne
  have hh : ¬ Eligible c h := hcnone h (hperm.mem_iff.mpr (.head _))
  rw [if_neg hh] at hpick
  obtain ⟨hwf', hne', hstat, hfenced, hnames⟩ := pick_again_keeps hwf hcne hpick
  refine ⟨_, hpick, hwf', hne', ?_⟩
  intro y hy helig
  -- eligibility is a property of the name, and the loop keeps the names
  obtain ⟨z, hz, hzy⟩ := mem_map.mp
    (hnames.mem_iff.mpr (mem_map_of_mem (f := name) hy))
  apply hcnone z hz
  unfold Eligible at helig ⊢
  rw [hzy]
  exact helig

/-- When as many names are fenced as there are handlers, every handler is fenced. -/
theorem fenced_of_card_eq (hb : WellFormed b)
    (hcard : b.fenced.card = b.handlers.length) (hh : h ∈ b.handlers) : h.name ∈ b.fenced := by
  have hle : (b.handlers.map name).toFinset.card ≤ b.fenced.card := by
    rw [hcard]
    simpa using (b.handlers.map name).toFinset_card_le
  rw [Finset.eq_of_subset_of_card_le hb.fenced hle]
  exact mem_toFinset.mpr (mem_map_of_mem hh)

/-- The test before the loop refuses only when no handler is eligible. -/
theorem not_eligible_of_refuses (hb : WellFormed b) (hguard : Refuses b)
    (hh : h ∈ b.handlers) : ¬ Eligible b h := by
  intro helig
  rcases hguard with hzero | hzero | hcard
  · rw [length_eq_zero_iff.mp hzero] at hh
    cases hh
  · have hup := helig.1
    rw [Finset.card_eq_zero.mp hzero] at hup
    exact absurd hup (Finset.notMem_empty _)
  · exact helig.2 (fenced_of_card_eq hb hcard hh)

/-! ## When `nextServer` answers -/

/-- `nextServer` returns; without an eligible handler in the heap it returns
    `errNoAvailableServer`, and with one it returns an eligible handler. -/
def AnswersRight (b : Balancer H) : Prop :=
  ∃ fuel r b', nextServer fuel b = some (r, b') ∧
    ((∀ h ∈ b.handlers, ¬ Eligible b h) → r = .error .noAvailableServer) ∧
    ((∃ h ∈ b.handlers, Eligible b h) → ∃ h ∈ b'.handlers, r = .ok h ∧ Eligible b h)

/-- **`nextServer` answers right exactly when** the test before the loop
    refuses or some handler of the heap is eligible; in the other reachable
    states its loop never ends. -/
theorem nextServer_answers_iff {b : Balancer H} (hreach : (wrr H).Reachable b) :
    AnswersRight b ↔ Refuses b ∨ ∃ h ∈ b.handlers, Eligible b h := by
  have hb := reachable_wellFormed hreach
  by_cases hguard : Refuses b
  · -- the error of the test is right, as it refuses only without eligible handlers
    refine ⟨fun _ => .inl hguard, fun _ => ?_⟩
    refine ⟨0, .error .noAvailableServer, b, by simp [nextServer, hguard], fun _ => rfl, ?_⟩
    rintro ⟨h, hh, helig⟩
    exact absurd helig (not_eligible_of_refuses hb hguard hh)
  · have hne : b.handlers ≠ [] := fun hnil => hguard (.inl (by rw [hnil]; rfl))
    constructor
    · -- past the test there is nothing but the loop, which does not end
      rintro ⟨fuel, r, b', hnext, _, _⟩
      by_contra hcon
      have hnone : ∀ h ∈ b.handlers, ¬ Eligible b h := fun h hh helig =>
        hcon (.inr ⟨h, hh, helig⟩)
      rw [nextServer, if_neg hguard, pick_diverges hb hne hnone fuel] at hnext
      cases hnext
    · rintro (hg | ⟨e, he, helig⟩)
      · exact absurd hg hguard
      · obtain ⟨h, b', ⟨fuel, hfuel⟩, hmem, hh⟩ := pick_returns hb he helig
        refine ⟨fuel, .ok h, b', by rw [nextServer, if_neg hguard]; exact hfuel, ?_, ?_⟩
        · intro hnone
          exact absurd helig (hnone e he)
        · intro _
          exact ⟨h, hmem, rfl, hh⟩

/-- A balancer with a fenced server `a` and a server `b`, both up. -/
def fencedPair : Balancer Unit :=
  add (add new "a" () none true) "b" () none false

theorem fencedPair_reachable : (wrr Unit).Reachable fencedPair := by
  apply System.Reachable.step (.add "b" () none false) _ rfl
  exact .step (.add "a" () none true) (.init rfl) rfl

/-- While `b` is up the balancer answers. -/
theorem fencedPair_answers : (wrr Unit).Reachable fencedPair ∧ AnswersRight fencedPair :=
  ⟨fencedPair_reachable, (nextServer_answers_iff fencedPair_reachable).mpr (by decide +kernel)⟩

/-- Once `b` is down, only the fenced server is up: the loop of `nextServer`
    pops both servers for ever, where `errNoAvailableServer` is due. -/
theorem fencedPair_hangs :
    (wrr Unit).Reachable (setStatus fencedPair "b" false).1 ∧
      (∀ fuel, nextServer fuel (setStatus fencedPair "b" false).1 = none) ∧
      ¬ AnswersRight (setStatus fencedPair "b" false).1 := by
  have hreach : (wrr Unit).Reachable (setStatus fencedPair "b" false).1 :=
    .step (.setStatus "b" false) fencedPair_reachable rfl
  have hhang : ∀ fuel, nextServer fuel (setStatus fencedPair "b" false).1 = none := by
    intro fuel
    rw [nextServer, if_neg (by decide +kernel)]
    exact pick_diverges (reachable_wellFormed hreach) (by decide +kernel) (by decide +kernel) fuel
  refine ⟨hreach, hhang, ?_⟩
  rintro ⟨fuel, r, b', hnext, _⟩
  rw [hhang fuel] at hnext
  cases hnext

end Ingress.Wrr
