import Ingress.LoadBalancer.Wrr

/-! # Fairness of HTTP Weighted Round Robin

    No handler of the balancer is more than one of its periods, `1 / weight`, ahead of the
    deadline of the last pick, and none is behind it.  A handler that is up and not fenced moves
    by one period exactly when it is picked, so two of them cannot be picked much more often than
    their weights say.

    * `InTime`: the invariant of the deadlines.
    * `picking`: the runs of a balancer, with the names that are picked.
    * `moves`: where the deadline of a handler is after a run.
    * `picks_fair`: the picks of two handlers, and the first round of all. -/

open List Loop LTS

namespace Ingress.Wrr

variable {H : Type}

/-! ## Deadlines -/

/-- Every deadline is within one period of the last pick. -/
def InTime (b : Balancer H) : Prop :=
  ∀ h ∈ b.handlers, b.curDeadline ≤ h.deadline ∧ h.deadline ≤ b.curDeadline + 1 / h.weight

theorem period_pos (h : NamedHandler H) : 0 < 1 / h.weight := one_div_pos.mpr h.weight_pos

variable {h : NamedHandler H}

/-- A deadline one period ahead. -/
theorem one_period_ahead {cur : ℚ} (hdeadline : h.deadline = cur + 1 / h.weight) :
    cur ≤ h.deadline ∧ h.deadline ≤ cur + 1 / h.weight := by
  have hpos := period_pos h
  rw [hdeadline]
  exact ⟨by linarith, le_rfl⟩

variable {b : Balancer H}

theorem add_inTime (hb : InTime b) (name : String) (handler : H)
    (wt : Option Int) (fenced : Bool) : InTime (add b name handler wt fenced) := by
  simp only [add]
  split
  · exact hb
  · intro h hh
    rcases mem_cons.mp ((Heap.push_perm less b.handlers _).mem_iff.mp hh) with hnew | hold
    · exact one_period_ahead (by rw [hnew])
    · exact hb h hold

/-- A pick of the least deadline moves no deadline out of its period. -/
theorem repush_inTime {rest : List (NamedHandler H)}
    (hb : InTime b) (hperm : b.handlers.Perm (h :: rest))
    (hmin : ∀ y ∈ b.handlers, h.deadline ≤ y.deadline) : InTime (repush b h rest) := by
  have hcur : b.curDeadline ≤ h.deadline := (hb h (hperm.mem_iff.mpr (.head _))).1
  intro y hy
  rcases mem_cons.mp ((repush_perm b h rest).mem_iff.mp hy) with rfl | hrest
  · exact one_period_ahead rfl
  · have hy' : y ∈ b.handlers := hperm.mem_iff.mpr (.tail _ hrest)
    refine ⟨hmin y hy', ?_⟩
    exact (hb y hy').2.trans (add_le_add_left hcur _)

/-! ## Calls of `nextServer` -/

variable {picked : NamedHandler H} {fuel : Nat}

variable {b b' : Balancer H}

/-- **What `nextServer` picks**, when it picks a handler. -/
theorem nextServer_rule
    (inv : Balancer H → Prop) (post : NamedHandler H → Balancer H → Prop) (hb : WellFormed b)
    (hinv : inv b)
    (hagain : ∀ c x rest, inv c → c.handlers.Perm (x :: rest) →
      (∀ y ∈ c.handlers, x.deadline ≤ y.deadline) → ¬ Eligible c x → inv (repush c x rest))
    (hleave : ∀ c x rest, inv c → c.handlers.Perm (x :: rest) →
      (∀ y ∈ c.handlers, x.deadline ≤ y.deadline) → Eligible c x → post x (repush c x rest))
    (h : nextServer fuel b = some (.ok picked, b')) : ∃ x, picked = x.advance ∧ post x b' :=
  nextServer_post inv (fun out => ∀ h, out.1 = .ok h → ∃ x, h = x.advance ∧ post x out.2) hb hinv
    nofun hagain (fun c x rest hc hperm hmin helig _ _ hh =>
      ⟨x, (Except.ok.inj hh).symm, hleave c x rest hc hperm hmin helig⟩) h picked rfl

/-- A call that fails changes nothing: the loop has no turn that fails. -/
theorem nextServer_error {err : Error} (hb : WellFormed b)
    (h : nextServer fuel b = some (.error err, b')) : b' = b :=
  nextServer_post (fun _ => True) (fun out => ∀ e, out.1 = .error e → out.2 = b) hb trivial
    (fun _ _ => rfl) (fun _ _ _ _ _ _ _ => trivial) (fun _ _ _ _ _ _ _ _ _ he => nomatch he) h err rfl

theorem nextServer_inTime {r : Except Error (NamedHandler H)}
    (hwf : WellFormed b) (hb : InTime b) (h : nextServer fuel b = some (r, b')) : InTime b' :=
  nextServer_post InTime (fun out => InTime out.2) hwf hb hb
    (fun _ _ _ hc hperm hmin _ => repush_inTime hc hperm hmin)
    (fun _ _ _ hc hperm hmin _ _ => repush_inTime hc hperm hmin) h

variable {call : Call H}

theorem step_inTime (hwf : WellFormed b) (hb : InTime b)
    (hstep : (wrr H).step b call b') : InTime b' := by
  cases call with
  | add name handler wt fenced =>
    rw [show b' = add b name handler wt fenced from hstep]
    exact add_inTime hb name handler wt fenced
  | setStatus child up =>
    rw [show b' = (setStatus b child up).1 from hstep]
    exact hb
  | nextServer =>
    obtain ⟨fuel, r, hnext⟩ := hstep
    exact nextServer_inTime hwf hb hnext

/-- **In time**: the invariant holds after any calls. -/
theorem reachable_inTime (h : (wrr H).Reachable b) : InTime b := by
  induction h with
  | init hinit =>
    rw [show _ = new from hinit]
    intro h hh
    cases hh
  | step call hreach hstep ih => exact step_inTime (reachable_wellFormed hreach) ih hstep

/-! ## Runs -/

open NamedHandler

/-- The names of the handlers. -/
def names (b : Balancer H) : List String :=
  b.handlers.map name

/-- A handler that is added has a name of its own. -/
def Distinct (b : Balancer H) : Call H → Prop
  | .add name _ weight _ => weight.getD 1 ≤ 0 ∨ name ∉ names b
  | _ => True

/-- The name that a call of `nextServer` has picked. -/
def pickedName : Except Error (NamedHandler H) → List String
  | .ok h => [h.name]
  | .error _ => []

/-- The runs from a balancer, with the names that are picked. -/
def picking (b₀ : Balancer H) : System (Balancer H × List String) (Call H) where
  init := fun s => s = (b₀, [])
  step := fun s call s' =>
    match call with
    | .nextServer => ∃ fuel r, nextServer fuel s.1 = some (r, s'.1) ∧ s'.2 = s.2 ++ pickedName r
    | call => (wrr H).step s.1 call s'.1 ∧ s'.2 = s.2

variable {b₀ : Balancer H}

/-- A run is one of the calls. -/
theorem picking_step {s s' : Balancer H × List String}
    (h : (picking b₀).step s call s') : (wrr H).step s.1 call s'.1 := by
  cases call with
  | nextServer =>
    obtain ⟨fuel, r, hnext, _⟩ := h
    exact ⟨fuel, r, hnext⟩
  | add name handler wt fenced => exact h.1
  | setStatus child up => exact h.1

variable {s : Balancer H × List String}

theorem picking_wellFormed {ok : Balancer H × List String → Call H → Prop}
    (hb₀ : WellFormed b₀) (hs : ((picking b₀).restrict ok).Reachable s) : WellFormed s.1 := by
  induction hs with
  | init hinit =>
    rw [show _ = (b₀, []) from hinit]
    exact hb₀
  | step call _ hstep ih => exact step_wellFormed ih (picking_step hstep.2)

/-- The deadline is `n` periods later. -/
def NamedHandler.moved (h : NamedHandler H) (n : ℕ) : NamedHandler H :=
  { h with deadline := h.deadline + n / h.weight }

@[simp] theorem NamedHandler.moved_zero (h : NamedHandler H) : h.moved 0 = h := by
  simp [moved]

theorem NamedHandler.moved_advance (h : NamedHandler H) (n : ℕ) :
    (h.moved n).advance = h.moved (n + 1) := by
  have hdeadline : h.deadline + n / h.weight + 1 / h.weight = h.deadline + (n + 1 : ℕ) / h.weight := by
    push_cast
    ring
  simp only [moved, advance, hdeadline]

/-! ## Names -/

theorem names_repush {rest : List (NamedHandler H)}
    (hperm : b.handlers.Perm (h :: rest)) : (names (repush b h rest)).Perm (names b) :=
  ((repush_perm b h rest).map name).trans (hperm.map name).symm

/-- A name tells which handler it is. -/
theorem eq_of_name (hnames : (names b).Nodup) {h h' : NamedHandler H}
    (hh : h ∈ b.handlers) (hh' : h' ∈ b.handlers) (heq : h.name = h'.name) : h = h' :=
  inj_on_of_nodup_map hnames hh hh' heq

theorem add_names (hnames : (names b).Nodup) {name : String} {handler : H}
    {wt : Option Int} {fenced : Bool} (hdist : Distinct b (.add name handler wt fenced)) :
    (names (add b name handler wt fenced)).Nodup := by
  rcases hdist with hwt | hnew
  · rw [add, dif_pos hwt]
    exact hnames
  · by_cases hwt : wt.getD 1 ≤ 0
    · rw [add, dif_pos hwt]
      exact hnames
    · rw [add, dif_neg hwt, names,
        ((Heap.push_perm less b.handlers _).map NamedHandler.name).nodup_iff]
      exact nodup_cons.mpr ⟨hnew, hnames⟩

theorem mem_add (hh : h ∈ b.handlers) (name : String)
    (handler : H) (wt : Option Int) (fenced : Bool) :
    h ∈ (add b name handler wt fenced).handlers := by
  simp only [add]
  split
  · exact hh
  · exact (Heap.push_perm less b.handlers _).mem_iff.mpr (.tail _ hh)

/-- A pick changes deadlines only. -/
theorem nextServer_keeps (hb : WellFormed b) (h : nextServer fuel b = some (.ok picked, b')) :
    b'.status = b.status ∧ b'.fenced = b.fenced ∧ (names b').Perm (names b) := by
  let inv : Balancer H → Prop := fun c =>
    c.status = b.status ∧ c.fenced = b.fenced ∧ (names c).Perm (names b)
  have hkeep : ∀ c x rest, inv c → c.handlers.Perm (x :: rest) → inv (repush c x rest) := by
    intro c x rest hc hperm
    exact ⟨hc.1, hc.2.1, (names_repush hperm).trans hc.2.2⟩
  obtain ⟨x, _, hpost⟩ := nextServer_rule inv (fun _ => inv) hb ⟨rfl, rfl, .refl _⟩
    (fun c x rest hc hperm _ _ => hkeep c x rest hc hperm)
    (fun c x rest hc hperm _ _ => hkeep c x rest hc hperm) h
  exact hpost

/-- A call keeps the names apart. -/
theorem step_names (hb : WellFormed b) (hnames : (names b).Nodup)
    (hdist : Distinct b call) (h : (wrr H).step b call b') : (names b').Nodup := by
  cases call with
  | add name handler wt fenced =>
    rw [show b' = add b name handler wt fenced from h]
    exact add_names hnames hdist
  | setStatus child up =>
    rw [show b' = (setStatus b child up).1 from h]
    exact hnames
  | nextServer =>
    obtain ⟨fuel, r, hnext⟩ := h
    cases r with
    | error err =>
      rw [nextServer_error hb hnext]
      exact hnames
    | ok picked => exact (nextServer_keeps hb hnext).2.2.nodup_iff.mpr hnames

/-! ## The handler that is picked moves -/

/-- A handler that is up and not fenced moves by one period when it is picked, and stays where
    it is when another one is. -/
theorem nextServer_moves {picked e : NamedHandler H}
    (hb : WellFormed b) (hnames : (names b).Nodup) (he : e ∈ b.handlers) (helig : Eligible b e)
    (h : nextServer fuel b = some (.ok picked, b')) :
    (if picked.name = e.name then e.advance else e) ∈ b'.handlers := by
  let inv : Balancer H → Prop := fun c =>
    (names c).Nodup ∧ e ∈ c.handlers ∧ c.status = b.status ∧ c.fenced = b.fenced
  let post : NamedHandler H → Balancer H → Prop := fun x c =>
    (if x.name = e.name then e.advance else e) ∈ c.handlers
  have hagain : ∀ c x rest, inv c → c.handlers.Perm (x :: rest) →
      (∀ y ∈ c.handlers, x.deadline ≤ y.deadline) → ¬ Eligible c x → inv (repush c x rest) := by
    intro c x rest hc hperm _ hnot
    refine ⟨(names_repush hperm).nodup_iff.mpr hc.1, ?_, hc.2.2.1, hc.2.2.2⟩
    -- the handler that is popped is not the one that is up
    rcases mem_cons.mp (hperm.mem_iff.mp hc.2.1) with rfl | hrest
    · refine absurd ?_ hnot
      unfold Eligible at helig ⊢
      rw [hc.2.2.1, hc.2.2.2]
      exact helig
    · exact (repush_perm c x rest).mem_iff.mpr (.tail _ hrest)
  have hleave : ∀ c x rest, inv c → c.handlers.Perm (x :: rest) →
      (∀ y ∈ c.handlers, x.deadline ≤ y.deadline) → Eligible c x → post x (repush c x rest) := by
    intro c x rest hc hperm _ _
    show (if x.name = e.name then e.advance else e) ∈ (repush c x rest).handlers
    rw [(repush_perm c x rest).mem_iff]
    split
    · next hname =>
      have hx : x ∈ c.handlers := hperm.mem_iff.mpr (.head _)
      rw [eq_of_name hc.1 hx hc.2.1 hname]
      exact .head _
    · next hname =>
      rcases mem_cons.mp (hperm.mem_iff.mp hc.2.1) with rfl | hrest
      · exact absurd rfl hname
      · exact .tail _ hrest
  obtain ⟨x, rfl, hpost⟩ := nextServer_rule inv post hb ⟨hnames, he, rfl, rfl⟩ hagain hleave h
  exact hpost

/-- The calls of a run: names are distinct, and some handlers are up and not fenced whenever
    `nextServer` is called. -/
def Available (up : List (NamedHandler H)) (s : Balancer H × List String) (call : Call H) : Prop :=
  Distinct s.1 call ∧ (call = .nextServer → ∀ h ∈ up, Eligible s.1 h)

/-- What holds along a run. -/
structure Along (h : NamedHandler H) (s : Balancer H × List String) : Prop where
  wellFormed : WellFormed s.1
  inTime : InTime s.1
  distinct : (names s.1).Nodup
  moved : h.moved (s.2.count h.name) ∈ s.1.handlers

/-- **The deadline of a handler** that is up and not fenced tells how often it was picked. -/
theorem moves {up : List (NamedHandler H)} (hb₀ : Along h (b₀, [])) (hup : h ∈ up)
    (hs : ((picking b₀).restrict (Available up)).Reachable s) : Along h s := by
  induction hs with
  | init hinit =>
    rw [show _ = (b₀, []) from hinit]
    exact hb₀
  | @step s s' call _ hstep ih =>
    obtain ⟨⟨hdist, helig⟩, hstep⟩ := hstep
    have hwrr := picking_step hstep
    refine ⟨step_wellFormed ih.wellFormed hwrr, step_inTime ih.wellFormed ih.inTime hwrr,
      step_names ih.wellFormed ih.distinct hdist hwrr, ?_⟩
    cases call with
    | add name handler wt fenced =>
      obtain ⟨hadd, hpicks⟩ := hstep
      rw [hpicks, show s'.1 = add s.1 name handler wt fenced from hadd]
      exact mem_add ih.moved name handler wt fenced
    | setStatus child up' =>
      obtain ⟨hset, hpicks⟩ := hstep
      rw [hpicks, show s'.1 = (setStatus s.1 child up').1 from hset]
      exact ih.moved
    | nextServer =>
      obtain ⟨fuel, r, hnext, hpicks⟩ := hstep
      rw [hpicks]
      cases r with
      | error err =>
        rw [nextServer_error ih.wellFormed hnext, pickedName, append_nil]
        exact ih.moved
      | ok picked =>
        have hmoves := nextServer_moves ih.wellFormed ih.distinct ih.moved (helig rfl h hup) hnext
        rw [moved_advance] at hmoves
        rw [pickedName, count_append, count_singleton]
        have hsame : (h.moved (s.2.count h.name)).name = h.name := rfl
        rw [hsame] at hmoves
        by_cases hname : picked.name = h.name
        · simpa [hname] using hmoves
        · simpa [hname] using hmoves

/-- How often a handler was picked, against how far the deadlines of the picks have moved. -/
theorem picks_bound (hb₀ : InTime b₀) (hh : h ∈ b₀.handlers) (hs : Along h s) :
    |s.2.count h.name / h.weight - (s.1.curDeadline - b₀.curDeadline)| ≤ 1 / h.weight := by
  obtain ⟨hlow, hhigh⟩ := hb₀ h hh
  obtain ⟨hlow', hhigh'⟩ := hs.inTime _ hs.moved
  have hdeadline : (h.moved (s.2.count h.name)).deadline =
      h.deadline + s.2.count h.name / h.weight := rfl
  have hwt : (h.moved (s.2.count h.name)).weight = h.weight := rfl
  rw [hdeadline, hwt] at hhigh'
  rw [abs_le]
  constructor <;> linarith

/-! ## The first round -/

/-- Only handlers with names of their own are added. -/
def Adding (b : Balancer H) (call : Call H) : Prop :=
  Distinct b call ∧ ∃ name handler weight fenced, call = .add name handler weight fenced

/-- Nothing is added, and all handlers are up and not fenced whenever `nextServer` is called. -/
def Round (b₀ : Balancer H) (s : Balancer H × List String) (call : Call H) : Prop :=
  (∀ name handler weight fenced, call ≠ .add name handler weight fenced) ∧
    Available b₀.handlers s call

/-- A balancer that was filled and not used. -/
structure Fresh (b : Balancer H) : Prop where
  distinct : (names b).Nodup
  cur : b.curDeadline = 0
  deadlines : ∀ h ∈ b.handlers, h.deadline = 1 / h.weight
  weights : ∀ h ∈ b.handlers, ∃ w : ℕ, h.weight = w

theorem fresh_of_adding (h : ((wrr H).restrict Adding).Reachable b) : Fresh b := by
  induction h with
  | init hinit =>
    rw [show _ = new from hinit]
    exact ⟨nodup_nil, rfl, nofun, nofun⟩
  | @step b b' call _ hstep ih =>
    obtain ⟨⟨hdist, name, handler, wt, fenced, rfl⟩, hstep⟩ := hstep
    rw [show b' = add b name handler wt fenced from hstep]
    refine ⟨add_names ih.distinct hdist, ?_, ?_, ?_⟩
    · unfold add
      dsimp only
      split <;> exact ih.cur
    · intro h hh
      unfold add at hh
      dsimp only at hh
      split at hh
      · exact ih.deadlines h hh
      · rcases mem_cons.mp ((Heap.push_perm less b.handlers _).mem_iff.mp hh) with hnew | hold
        · rw [hnew, ih.cur, zero_add]
        · exact ih.deadlines h hold
    · intro h hh
      unfold add at hh
      dsimp only at hh
      split at hh
      · exact ih.weights h hh
      · next hw =>
        rcases mem_cons.mp ((Heap.push_perm less b.handlers _).mem_iff.mp hh) with hnew | hold
        · refine ⟨(wt.getD 1).toNat, ?_⟩
          have hpos : ((wt.getD 1).toNat : ℤ) = wt.getD 1 := Int.toNat_of_nonneg (by omega)
          rw [hnew, ← Int.cast_natCast, hpos]
        · exact ih.weights h hold

/-- All picks are picks of one of the handlers. -/
theorem sum_count {l picks : List String} (hl : l.Nodup) (hpicks : ∀ name ∈ picks, name ∈ l) :
    (l.map picks.count).sum = picks.length := by
  rw [← sum_toFinset _ hl]
  have hcard := Multiset.sum_count_eq_card (s := l.toFinset) (m := (picks : Multiset String))
    (fun name hname => mem_toFinset.mpr (hpicks name hname))
  simpa using hcard

/-- The sum of the weights. -/
def totalWeight (b : Balancer H) : ℚ :=
  (b.handlers.map weight).sum

/-- A call of `nextServer` when all handlers are up and not fenced: the first handler that is
    popped is picked. -/
theorem nextServer_all (hb : WellFormed b) (hall : ∀ h ∈ b.handlers, Eligible b h)
    (h : nextServer fuel b = some (.ok picked, b')) :
    ∃ x ∈ b.handlers, picked.name = x.name ∧ ∀ y ∈ b.handlers, x.deadline ≤ y.deadline := by
  obtain ⟨x, rfl, hx, hmin⟩ := nextServer_rule (fun c => c = b)
    (fun x _ => x ∈ b.handlers ∧ ∀ y ∈ b.handlers, x.deadline ≤ y.deadline) hb rfl
    (fun c x rest hc hperm _ hnot => by
      subst hc
      exact absurd (hall x (hperm.mem_iff.mpr (.head _))) hnot)
    (fun c x rest hc hperm hmin _ => by
      subst hc
      exact ⟨hperm.mem_iff.mpr (.head _), hmin⟩) h
  exact ⟨x, hx, rfl, hmin⟩

/-- What holds in the first round: no handler is picked more often than its weight says. -/
structure InRound (b₀ : Balancer H) (s : Balancer H × List String) : Prop where
  same : (names s.1).Perm (names b₀)
  picks : ∀ name ∈ s.2, name ∈ names b₀
  counts : (s.2.length : ℚ) ≤ totalWeight b₀ →
    ∀ h ∈ b₀.handlers, (s.2.count h.name : ℚ) ≤ h.weight

section
variable {b₀ : Balancer H} {s : Balancer H × List String}

theorem InRound.sum (hb₀ : Fresh b₀) (hs : InRound b₀ s) :
    (b₀.handlers.map fun h => (s.2.count h.name : ℚ)).sum = s.2.length := by
  have hsum := sum_count hb₀.distinct hs.picks
  rw [names, map_map] at hsum
  rw [← hsum, Nat.cast_list_sum, map_map]
  rfl

/-- The least deadline is at most 1 while there are picks left. -/
theorem InRound.exists_behind (hb₀ : Fresh b₀) (hs : InRound b₀ s)
    (hlen : (s.2.length : ℚ) < totalWeight b₀) :
    ∃ h ∈ b₀.handlers, (h.moved (s.2.count h.name)).deadline ≤ 1 := by
  rw [← hs.sum hb₀, totalWeight] at hlen
  obtain ⟨h, hh, hlt⟩ := exists_lt_of_sum_lt _ _ hlen
  refine ⟨h, hh, ?_⟩
  obtain ⟨w, hw⟩ := hb₀.weights h hh
  have hle : (s.2.count h.name : ℚ) + 1 ≤ h.weight := by
    rw [hw] at hlt ⊢
    exact_mod_cast hlt
  show h.deadline + s.2.count h.name / h.weight ≤ 1
  rw [hb₀.deadlines h hh, ← add_div, div_le_one h.weight_pos, add_comm]
  exact hle

/-- One more pick. -/
theorem InRound.pick (hb₀ : Fresh b₀) (halong : ∀ h ∈ b₀.handlers, Along h s) (hs : InRound b₀ s)
    {x : NamedHandler H} (hx : x ∈ s.1.handlers) (hmin : ∀ y ∈ s.1.handlers, x.deadline ≤ y.deadline)
    {b' : Balancer H} (hnames : (names b').Perm (names s.1)) :
    InRound b₀ (b', s.2 ++ [x.name]) := by
  have hname : x.name ∈ names b₀ := hs.same.mem_iff.mp (mem_map_of_mem hx)
  refine ⟨hnames.trans hs.same, ?_, ?_⟩
  · intro name hmem
    rcases mem_append.mp hmem with hold | hnew
    · exact hs.picks name hold
    · rw [mem_singleton.mp hnew]
      exact hname
  · intro hlen h hh
    have hlt : (s.2.length : ℚ) < totalWeight b₀ := by
      rw [length_append, length_singleton] at hlen
      push_cast at hlen
      linarith
    have hold := hs.counts hlt.le h hh
    show ((s.2 ++ [x.name]).count h.name : ℚ) ≤ h.weight
    rw [count_append, count_singleton]
    by_cases heq : x.name = h.name
    · -- the handler that is picked has the least deadline, which is at most 1
      obtain ⟨e, he, hbehind⟩ := hs.exists_behind hb₀ hlt
      have hxh : x = h.moved (s.2.count h.name) :=
        eq_of_name (halong h hh).distinct hx (halong h hh).moved heq
      have hle := (hmin _ (halong e he).moved).trans hbehind
      rw [hxh] at hle
      have hdeadline : h.deadline + s.2.count h.name / h.weight ≤ 1 := hle
      rw [hb₀.deadlines h hh, ← add_div, div_le_one h.weight_pos] at hdeadline
      rw [if_pos (by simpa using heq)]
      push_cast
      linarith
    · rw [if_neg (by simpa using heq), add_zero]
      exact hold

/-- Eligibility depends on names. -/
theorem eligible_all (hall : ∀ h ∈ b₀.handlers, Eligible b h)
    (hnames : (names b).Perm (names b₀)) : ∀ h ∈ b.handlers, Eligible b h := by
  intro h hh
  obtain ⟨h₀, hh₀, hname⟩ := mem_map.mp
    (hnames.mem_iff.mp (mem_map_of_mem (f := name) hh))
  have helig := hall h₀ hh₀
  unfold Eligible at helig ⊢
  rw [← hname]
  exact helig

/-- The invariant of the first round. -/
theorem inRound_of_reachable (hwf : WellFormed b₀) (htime : InTime b₀) (hb₀ : Fresh b₀)
    (hs : ((picking b₀).restrict (Round b₀)).Reachable s) : InRound b₀ s := by
  have hstart : ∀ h ∈ b₀.handlers, Along h (b₀, []) := by
    intro h hh
    exact ⟨hwf, htime, hb₀.distinct, by simpa using hh⟩
  have halong : ∀ {s}, ((picking b₀).restrict (Round b₀)).Reachable s →
      ∀ h ∈ b₀.handlers, Along h s := by
    intro s hs h hh
    exact moves (hstart h hh) hh (hs.restrict_mono fun _ _ hround => hround.2)
  induction hs with
  | init hinit =>
    rw [show _ = (b₀, []) from hinit]
    refine ⟨.refl _, nofun, fun _ h _ => ?_⟩
    exact h.weight_pos.le
  | @step s s' call hs hstep ih =>
    obtain ⟨⟨hadd, _, helig⟩, hstep⟩ := hstep
    cases call with
    | add name handler wt fenced => exact absurd rfl (hadd name handler wt fenced)
    | setStatus child up =>
      obtain ⟨hset, hpicks⟩ := hstep
      have hsame : s'.1.handlers = s.1.handlers := by
        rw [show s'.1 = (setStatus s.1 child up).1 from hset]
        rfl
      refine ⟨?_, by rw [hpicks]; exact ih.picks, by rw [hpicks]; exact ih.counts⟩
      rw [names, hsame]
      exact ih.same
    | nextServer =>
      obtain ⟨fuel, r, hnext, hpicks⟩ := hstep
      have hwf' := picking_wellFormed hwf hs
      obtain ⟨b', names'⟩ := s'
      dsimp only at hnext hpicks
      rw [hpicks]
      cases r with
      | error err =>
        rw [nextServer_error hwf' hnext, pickedName, append_nil]
        exact ih
      | ok picked =>
        have hall := eligible_all (helig rfl) ih.same
        obtain ⟨x, hx, hname, hmin⟩ := nextServer_all hwf' hall hnext
        rw [pickedName, hname]
        exact ih.pick hb₀ (halong hs) hx hmin (nextServer_keeps hwf' hnext).2.2

/-- **The first round**: each handler is picked as often as its weight says. -/
theorem InRound.counts_eq (hb₀ : Fresh b₀) (hs : InRound b₀ s)
    (hlen : (s.2.length : ℚ) = totalWeight b₀) (hh : h ∈ b₀.handlers) :
    (s.2.count h.name : ℚ) = h.weight := by
  have hle := hs.counts hlen.le
  by_contra hne
  have hlt := sum_lt_sum (fun h : NamedHandler H => (s.2.count h.name : ℚ))
    weight hle ⟨h, hh, lt_of_le_of_ne (hle h hh) hne⟩
  rw [hs.sum hb₀, hlen] at hlt
  exact lt_irrefl _ hlt

/-- There are picks, any number of them. -/
theorem exists_round (hwf : WellFormed b₀) (hne : b₀.handlers ≠ [])
    (hall : ∀ h ∈ b₀.handlers, Eligible b₀ h) (n : ℕ) :
    ∃ s, ((picking b₀).restrict (Round b₀)).Reachable s ∧ s.2.length = n ∧
      s.1.status = b₀.status ∧ s.1.fenced = b₀.fenced ∧ (names s.1).Perm (names b₀) := by
  induction n with
  | zero => exact ⟨(b₀, []), .init rfl, rfl, rfl, rfl, .refl _⟩
  | succ n ih =>
    obtain ⟨s, hs, hlen, hstat, hfenced, hnames⟩ := ih
    have hwf' := picking_wellFormed hwf hs
    have hall₀ : ∀ h ∈ b₀.handlers, Eligible s.1 h := by
      intro h hh
      have helig := hall h hh
      unfold Eligible at helig ⊢
      rw [hstat, hfenced]
      exact helig
    -- some handler is up, so the loop ends
    obtain ⟨e, he⟩ := exists_mem_of_ne_nil _ hne
    obtain ⟨e', he', _⟩ := mem_map.mp (hnames.mem_iff.mpr (mem_map_of_mem he))
    have helig := eligible_all hall₀ hnames e' he'
    obtain ⟨picked, b', ⟨fuel, hreturns⟩, _, _⟩ := pick_returns hwf' he' helig
    have hnext : nextServer fuel s.1 = some (.ok picked, b') := by
      rw [nextServer, if_neg fun hrefuses => not_eligible_of_refuses hwf' hrefuses he' helig]
      exact hreturns
    obtain ⟨hstat', hfenced', hnames'⟩ := nextServer_keeps hwf' hnext
    have hnoAdd : ∀ name handler weight fenced,
        Call.nextServer ≠ Call.add (H := H) name handler weight fenced := by
      intro _ _ _ _ hcall
      cases hcall
    refine ⟨(b', s.2 ++ [picked.name]), hs.step .nextServer ⟨⟨hnoAdd, trivial, fun _ => hall₀⟩, ?_⟩,
      ?_, hstat'.trans hstat, hfenced'.trans hfenced, hnames'.trans hnames⟩
    · exact ⟨fuel, .ok picked, hnext, rfl⟩
    · rw [length_append, length_singleton, hlen]

end

/-! ## Fairness -/

theorem names_of_distinct (h : ((wrr H).restrict Distinct).Reachable b) : (names b).Nodup := by
  induction h with
  | init hinit =>
    rw [show _ = new from hinit]
    exact nodup_nil
  | step call hreach hstep ih =>
    exact step_names (reachable_wellFormed hreach.of_restrict) ih hstep.1 hstep.2

/-- **Fairness**.  Every deadline stays within one period of the last pick.  Over any calls, the
    picks of two handlers that are up and not fenced whenever `nextServer` is called are, for
    their weights, at most the sum of their periods apart.  The first picks of a balancer that was
    filled and not used, as many as the sum of the weights, are distributed by weight. -/
theorem picks_fair :
    (∀ b : Balancer H, (wrr H).Reachable b → ∀ h ∈ b.handlers,
      b.curDeadline ≤ h.deadline ∧ h.deadline ≤ b.curDeadline + 1 / h.weight) ∧
    (∀ (b₀ : Balancer H) (i j : NamedHandler H) (s : Balancer H × List String),
      ((wrr H).restrict Distinct).Reachable b₀ → i ∈ b₀.handlers → j ∈ b₀.handlers →
      ((picking b₀).restrict (Available [i, j])).Reachable s →
      |s.2.count i.name / i.weight - s.2.count j.name / j.weight| ≤ 1 / i.weight + 1 / j.weight) ∧
    ∀ b₀ : Balancer H, ((wrr H).restrict Adding).Reachable b₀ →
      (∀ h ∈ b₀.handlers, Eligible b₀ h) →
      (b₀.handlers ≠ [] → ∀ n : ℕ, ∃ s, ((picking b₀).restrict (Round b₀)).Reachable s ∧
        s.2.length = n) ∧
      ∀ s : Balancer H × List String, ((picking b₀).restrict (Round b₀)).Reachable s →
        (s.2.length : ℚ) = (b₀.handlers.map weight).sum →
        ∀ h ∈ b₀.handlers, (s.2.count h.name : ℚ) = h.weight := by
  refine ⟨fun _ => reachable_inTime, ?_, ?_⟩
  · intro b₀ i j s hb₀ hi hj hs
    have hwf := reachable_wellFormed hb₀.of_restrict
    have htime := reachable_inTime hb₀.of_restrict
    have hnames := names_of_distinct hb₀
    have halong : ∀ h ∈ [i, j], h ∈ b₀.handlers → Along h s := by
      intro h hup hh
      exact moves ⟨hwf, htime, hnames, by simpa using hh⟩ hup hs
    have hboundi := picks_bound htime hi (halong i (by simp) hi)
    have hboundj := picks_bound htime hj (halong j (by simp) hj)
    rw [abs_le] at hboundi hboundj ⊢
    constructor <;> linarith
  · intro b₀ hb₀ hall
    have hwf := reachable_wellFormed hb₀.of_restrict
    have htime := reachable_inTime hb₀.of_restrict
    have hfresh := fresh_of_adding hb₀
    constructor
    · intro hne n
      obtain ⟨s, hs, hlen, _⟩ := exists_round hwf hne hall n
      exact ⟨s, hs, hlen⟩
    · intro s hs hlen h hh
      exact (inRound_of_reachable hwf htime hfresh hs).counts_eq hfresh hlen hh

end Ingress.Wrr
