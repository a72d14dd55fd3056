import Mathlib.Tactic

/-! # Depth-First Search

    A depth-first search of a directed graph that collects the edges that lead back to a
    node on the path it is on.  Nodes are listed in the order in which they are finished.

    The order of the list says everything: an edge leads back exactly when its target is
    not finished before its source (`Ok.settled`).  So the other edges are without cycles
    (`not_transGen_kept`), they still lead from the roots to everything that was found
    (`Step.down`), and every edge that leads back closes a cycle with them (`Ok.closes`).

    * `visit`, `visitAll`: the search, with fuel.
    * `Ok`: the invariant for the path the search is on.
    * `Step`: what a visit adds. -/

open Option List

namespace DepthFirst

open Relation

variable {κ : Type u} [DecidableEq κ]

/-- The nodes that are finished, in this order, and the edges that lead back. -/
structure State (κ : Type u) where
  finished : List κ
  back : List (κ × κ)

/-- Nothing was found yet. -/
def State.start : State κ where
  finished := []
  back := []

/-- Visit a node from the last node of the path. -/
def visit (adj : κ → List κ) : ℕ → List κ → κ → State κ → Option (State κ)
  | 0, _, _, _ => none
  | fuel + 1, path, u, s =>
    if path.contains u then
      some { s with back := s.back ++ (path.getLast?.map (·, u)).toList }
    else if s.finished.contains u then some s
    else
      ((adj u).foldlM (fun s c => visit adj fuel (path ++ [u]) c s) s).map fun s =>
        { s with finished := s.finished ++ [u] }

/-- Visit one node after the other. -/
def visitAll (adj : κ → List κ) (fuel : ℕ) (path us : List κ) (s : State κ) : Option (State κ) :=
  us.foldlM (fun s u => visit adj fuel path u s) s

variable {adj : κ → List κ} {fuel : ℕ} {path us : List κ} {u : κ} {s s' s₁ : State κ}

theorem visitAll_cons (adj : κ → List κ) (fuel : ℕ) (path : List κ) (u : κ) (us : List κ)
    (s : State κ) : visitAll adj fuel path (u :: us) s =
      (visit adj fuel path u s).bind fun s => visitAll adj fuel path us s := by
  simp [visitAll]

/-- What a visit does: it finds an edge that leads back, or a node that is finished, or it
    goes on to the neighbours. -/
theorem visit_cases (h : visit adj (fuel + 1) path u s = some s') :
    (u ∈ path ∧ s' = { s with back := s.back ++ (path.getLast?.map (·, u)).toList }) ∨
    (u ∉ path ∧ u ∈ s.finished ∧ s' = s) ∨
    (u ∉ path ∧ u ∉ s.finished ∧ ∃ s₁, visitAll adj fuel (path ++ [u]) (adj u) s = some s₁ ∧
      s' = { s₁ with finished := s₁.finished ++ [u] }) := by
  rw [visit] at h
  by_cases hpath : u ∈ path
  · rw [if_pos (contains_iff_mem.mpr hpath)] at h
    exact .inl ⟨hpath, (some.inj h).symm⟩
  · rw [if_neg (fun hc => hpath (contains_iff_mem.mp hc))] at h
    by_cases hfin : u ∈ s.finished
    · rw [if_pos (contains_iff_mem.mpr hfin)] at h
      exact .inr (.inl ⟨hpath, hfin, (some.inj h).symm⟩)
    · rw [if_neg (fun hc => hfin (contains_iff_mem.mp hc))] at h
      obtain ⟨s₁, hs₁, rfl⟩ := map_eq_some_iff.mp h
      exact .inr (.inr ⟨hpath, hfin, s₁, hs₁, rfl⟩)

/-! ## The order of the finished nodes -/

variable {F : List κ}

/-- Whether a node is finished before another one does not change any more. -/
theorem idxOf_lt_append {a : κ} (ha : a ∈ F) (b : κ) (G : List κ) :
    (F ++ G).idxOf b < (F ++ G).idxOf a ↔ F.idxOf b < F.idxOf a := by
  rw [idxOf_append_of_mem ha]
  by_cases hb : b ∈ F
  · rw [idxOf_append_of_mem hb]
  · have hlt := idxOf_lt_length_of_mem ha
    rw [idxOf_append_of_notMem hb, idxOf_of_notMem hb]
    omega

/-- An edge to a node that is finished before. -/
def Kept (adj : κ → List κ) (F : List κ) (a b : κ) : Prop :=
  a ∈ F ∧ b ∈ adj a ∧ F.idxOf b < F.idxOf a

/-- A way along such edges. -/
abbrev Down (adj : κ → List κ) (F : List κ) : κ → κ → Prop :=
  ReflTransGen (Kept adj F)

theorem Kept.append {a b : κ} (h : Kept adj F a b) (G : List κ) : Kept adj (F ++ G) a b :=
  ⟨mem_append_left G h.1, h.2.1, (idxOf_lt_append h.1 b G).mpr h.2.2⟩

theorem down_append {a b : κ} (h : Down adj F a b) (G : List κ) : Down adj (F ++ G) a b :=
  h.lift id fun _ _ hkept => hkept.append G

/-- There is no cycle of such edges. -/
theorem not_transGen_kept (F : List κ) (a : κ) : ¬ TransGen (Kept adj F) a a := by
  have hlower : ∀ {a b}, TransGen (Kept adj F) a b → F.idxOf b < F.idxOf a := by
    intro a b h
    induction h with
    | single h => exact h.2.2
    | tail _ h ih => exact h.2.2.trans ih
  exact fun h => lt_irrefl _ (hlower h)

/-! ## Invariant -/

/-- The invariant for the path the search is on. -/
structure Ok (adj : κ → List κ) (path : List κ) (s : State κ) : Prop where
  nodup : (s.finished ++ path).Nodup
  edge : ∀ a b, (a, b) ∈ s.back → b ∈ adj a ∧ a ∈ s.finished ++ path ∧ b ∈ s.finished ++ path
  /-- An edge leads back exactly when its target is not finished before its source. -/
  settled : ∀ a ∈ s.finished, ∀ b ∈ adj a,
    (a, b) ∈ s.back ↔ ¬ s.finished.idxOf b < s.finished.idxOf a
  /-- An edge that leads back closes a cycle. -/
  closes : ∀ a b, (a, b) ∈ s.back → b ∈ s.finished → Down adj s.finished b a

/-- What visits of `us` add: the nodes `seg` are finished. -/
structure Step (adj : κ → List κ) (path us : List κ) (s s' : State κ) (seg : List κ) : Prop where
  ok : Ok adj path s'
  finished : s'.finished = s.finished ++ seg
  reached : ∀ u ∈ us, u ∈ s'.finished ∨ u ∈ path
  down : ∀ w ∈ seg, ∃ u ∈ us, u ∈ s'.finished ∧ Down adj s'.finished u w
  old : ∀ e ∈ s.back, e ∈ s'.back
  new : ∀ a b, (a, b) ∈ s'.back →
    (a, b) ∈ s.back ∨ a ∈ seg ∨ path.getLast? = some a ∧ b ∈ us ∧ b ∈ path
  cut : ∀ a, path.getLast? = some a → ∀ b ∈ us, b ∈ path → (a, b) ∈ s'.back

theorem ok_start : Ok adj [] State.start where
  nodup := nodup_nil
  edge := nofun
  settled := nofun
  closes := nofun

/-- The neighbours of a finished node were found. -/
theorem Ok.neighbour (h : Ok adj path s) {a b : κ} (ha : a ∈ s.finished) (hb : b ∈ adj a) :
    b ∈ s.finished ++ path := by
  by_cases hback : (a, b) ∈ s.back
  · exact (h.edge a b hback).2.2
  · have hlt : s.finished.idxOf b < s.finished.idxOf a := by
      by_contra hge
      exact hback ((h.settled a ha b hb).mpr hge)
    exact mem_append_left _ (idxOf_lt_length_iff.mp (hlt.trans (idxOf_lt_length_of_mem ha)))

theorem Ok.push (h : Ok adj path s) (hpath : u ∉ path) (hfin : u ∉ s.finished) :
    Ok adj (path ++ [u]) s := by
  have hmem : ∀ {w}, w ∈ s.finished ++ path → w ∈ s.finished ++ (path ++ [u]) := by
    intro w hw
    rw [← append_assoc]
    exact mem_append_left _ hw
  refine { h with nodup := ?_, edge := ?_ }
  · rw [← append_assoc, nodup_append_comm]
    refine nodup_cons.mpr ⟨?_, h.nodup⟩
    simp [hpath, hfin]
  · intro a b hback
    obtain ⟨hadj, ha, hb⟩ := h.edge a b hback
    exact ⟨hadj, hmem ha, hmem hb⟩

theorem Step.nil (h : Ok adj path s) : Step adj path [] s s [] where
  ok := h
  finished := (append_nil _).symm
  reached := nofun
  down := nofun
  old := fun _ he => he
  new := fun _ _ hback => .inl hback
  cut := nofun

theorem Step.append {us' seg seg' : List κ} (h : Step adj path us s s₁ seg)
    (h' : Step adj path us' s₁ s' seg') : Step adj path (us ++ us') s s' (seg ++ seg') where
  ok := h'.ok
  finished := by rw [h'.finished, h.finished, append_assoc]
  reached := by
    intro u hu
    rcases mem_append.mp hu with hu | hu
    · rw [h'.finished, mem_append]
      exact (h.reached u hu).imp_left .inl
    · exact h'.reached u hu
  down := by
    intro w hw
    rcases mem_append.mp hw with hw | hw
    · obtain ⟨u, hu, hfin, hdown⟩ := h.down w hw
      rw [h'.finished]
      exact ⟨u, mem_append_left _ hu, mem_append_left _ hfin, down_append hdown seg'⟩
    · obtain ⟨u, hu, hfound⟩ := h'.down w hw
      exact ⟨u, mem_append_right _ hu, hfound⟩
  old := fun e he => h'.old e (h.old e he)
  new := by
    intro a b hback
    rcases h'.new a b hback with hback | hseg | ⟨hlast, hb, hpath⟩
    · rcases h.new a b hback with hback | hseg | ⟨hlast, hb, hpath⟩
      · exact .inl hback
      · exact .inr (.inl (mem_append_left _ hseg))
      · exact .inr (.inr ⟨hlast, mem_append_left _ hb, hpath⟩)
    · exact .inr (.inl (mem_append_right _ hseg))
    · exact .inr (.inr ⟨hlast, mem_append_right _ hb, hpath⟩)
  cut := by
    intro a hlast b hb hpath
    rcases mem_append.mp hb with hb | hb
    · exact h'.old _ (h.cut a hlast b hb hpath)
    · exact h'.cut a hlast b hb hpath

/-- An edge that leads back. -/
theorem Step.back (h : Ok adj path s) (hu : u ∈ path)
    (hedge : ∀ g, path.getLast? = some g → u ∈ adj g) :
    Step adj path [u] s { s with back := s.back ++ (path.getLast?.map (·, u)).toList } [] := by
  have hnew : ∀ a b, (a, b) ∈ s.back ++ (path.getLast?.map (·, u)).toList →
      (a, b) ∈ s.back ∨ path.getLast? = some a ∧ b = u := by
    intro a b hback
    rcases mem_append.mp hback with hback | hback
    · exact .inl hback
    · obtain ⟨g, hg, heq⟩ := map_eq_some_iff.mp (mem_toList.mp hback)
      obtain ⟨rfl, rfl⟩ := Prod.mk.inj heq
      exact .inr ⟨hg, rfl⟩
  -- a node of the path is not finished
  have hopen : ∀ w ∈ path, w ∉ s.finished := fun w hw hfin =>
    (nodup_append.mp h.nodup).2.2 w hfin w hw rfl
  refine ⟨⟨h.nodup, ?_, ?_, ?_⟩, (append_nil _).symm, ?_, nofun, ?_, ?_, ?_⟩
  · intro a b hback
    rcases hnew a b hback with hback | ⟨hlast, rfl⟩
    · exact h.edge a b hback
    · exact ⟨hedge a hlast, mem_append_right _ (mem_of_getLast? hlast), mem_append_right _ hu⟩
  · intro a ha b hb
    rw [← h.settled a ha b hb]
    constructor
    · intro hback
      rcases hnew a b hback with hback | ⟨hlast, -⟩
      · exact hback
      · exact absurd ha (hopen a (mem_of_getLast? hlast))
    · exact mem_append_left _
  · intro a b hback hb
    rcases hnew a b hback with hback | ⟨-, rfl⟩
    · exact h.closes a b hback hb
    · exact absurd hb (hopen b hu)
  · intro w hw
    rw [mem_singleton.mp hw]
    exact .inr hu
  · exact fun _ => mem_append_left _
  · intro a b hback
    rcases hnew a b hback with hback | ⟨hlast, rfl⟩
    · exact .inl hback
    · exact .inr (.inr ⟨hlast, mem_singleton_self b, hu⟩)
  · intro a hlast b hb _
    rw [mem_singleton.mp hb, hlast]
    simp

/-- All neighbours were visited: the node is finished. -/
theorem Step.finish {seg : List κ} (h : Ok adj path s) (hpath : u ∉ path) (hfin : u ∉ s.finished)
    (hstep : Step adj (path ++ [u]) (adj u) s s₁ seg) :
    Step adj path [u] s { s₁ with finished := s₁.finished ++ [u] } (seg ++ [u]) := by
  have hnd := hstep.ok.nodup
  -- a node of the path is not finished
  have hopen : ∀ w ∈ path ++ [u], w ∉ s₁.finished := fun w hw hin =>
    (nodup_append.mp hnd).2.2 w hin w hw rfl
  have hu : u ∉ s₁.finished := hopen u (by simp)
  have hidx : (s₁.finished ++ [u]).idxOf u = s₁.finished.length := by
    rw [idxOf_append_of_notMem hu]
    simp
  have hbefore : ∀ b, (s₁.finished ++ [u]).idxOf b < (s₁.finished ++ [u]).idxOf u ↔
      b ∈ s₁.finished := by
    intro b
    rw [hidx]
    by_cases hb : b ∈ s₁.finished
    · rw [idxOf_append_of_mem hb]
      exact ⟨fun _ => hb, fun _ => idxOf_lt_length_of_mem hb⟩
    · rw [idxOf_append_of_notMem hb]
      exact ⟨fun hlt => by omega, fun hb' => absurd hb' hb⟩
  have hlast : (path ++ [u]).getLast? = some u := by simp
  have hswap : ∀ {w}, w ∈ s₁.finished ++ (path ++ [u]) → w ∈ s₁.finished ++ [u] ++ path := by
    intro w hw
    simp only [mem_append] at hw ⊢
    tauto
  -- the edges of the node that lead back are those to the path
  have hback : ∀ b ∈ adj u, (u, b) ∈ s₁.back ↔ b ∈ path ++ [u] := by
    intro b hb
    constructor
    · intro hin
      rcases hstep.new u b hin with hold | hseg | ⟨-, -, hpath'⟩
      · have hmem := (h.edge u b hold).2.1
        exact absurd hmem (by simp [hpath, hfin])
      · exact absurd (by rw [hstep.finished]; exact mem_append_right _ hseg) hu
      · exact hpath'
    · exact hstep.cut u hlast b hb
  have hdown : ∀ w ∈ seg, Down adj (s₁.finished ++ [u]) u w := by
    intro w hw
    obtain ⟨c, hc, hcfinished, hcw⟩ := hstep.down w hw
    refine .head ⟨by simp, hc, (hbefore c).mpr hcfinished⟩ (down_append hcw [u])
  refine ⟨⟨?_, ?_, ?_, ?_⟩, ?_, ?_, ?_, hstep.old, ?_, ?_⟩
  · have hperm : (s₁.finished ++ (path ++ [u])).Perm (s₁.finished ++ [u] ++ path) := by
      rw [append_assoc]
      exact perm_append_comm.append_left _
    exact hperm.nodup_iff.mp hnd
  · intro a b hin
    obtain ⟨hadj, ha, hb⟩ := hstep.ok.edge a b hin
    exact ⟨hadj, hswap ha, hswap hb⟩
  · intro a ha b hb
    rcases mem_append.mp ha with ha | ha
    · rw [idxOf_lt_append ha]
      exact hstep.ok.settled a ha b hb
    · obtain rfl := mem_singleton.mp ha
      rw [hback b hb, hbefore]
      constructor
      · exact hopen b
      · intro hb'
        exact ((hstep.reached b hb).resolve_left hb')
  · intro a b hin hb
    rcases mem_append.mp hb with hb | hb
    · exact down_append (hstep.ok.closes a b hin hb) [u]
    · obtain rfl := mem_singleton.mp hb
      -- the target was not found before, so the edge comes from below
      rcases hstep.new a b hin with hold | hseg | ⟨ha, -, -⟩
      · have hmem := (h.edge a b hold).2.2
        exact absurd hmem (by simp [hpath, hfin])
      · exact hdown a hseg
      · obtain rfl : b = a := some.inj (hlast.symm.trans ha)
        exact .refl
  · rw [hstep.finished, append_assoc]
  · intro w hw
    rw [mem_singleton.mp hw]
    exact .inl (by simp)
  · intro w hw
    refine ⟨u, mem_singleton_self u, by simp, ?_⟩
    rcases mem_append.mp hw with hw | hw
    · exact hdown w hw
    · rw [mem_singleton.mp hw]
  · intro a b hin
    rcases hstep.new a b hin with hold | hseg | ⟨ha, -, -⟩
    · exact .inl hold
    · exact .inr (.inl (mem_append_left _ hseg))
    · obtain rfl : u = a := some.inj (hlast.symm.trans ha)
      exact .inr (.inl (by simp))
  · intro a _ b hb hin
    exact absurd (mem_singleton.mp hb ▸ hin) hpath

/-! ## The search -/

theorem visitAll_step (h : Ok adj path s) (hedge : ∀ g, path.getLast? = some g → ∀ u ∈ us, u ∈ adj g)
    (hvisit : ∀ {u s s'}, Ok adj path s → u ∈ us → visit adj fuel path u s = some s' →
      ∃ seg, Step adj path [u] s s' seg)
    (hall : visitAll adj fuel path us s = some s') : ∃ seg, Step adj path us s s' seg := by
  induction us generalizing s with
  | nil =>
    obtain rfl : s = s' := some.inj hall
    exact ⟨[], .nil h⟩
  | cons u us ih =>
    rw [visitAll_cons] at hall
    obtain ⟨s₁, hs₁, hall⟩ := bind_eq_some_iff.mp hall
    obtain ⟨seg, hstep⟩ := hvisit h (.head _) hs₁
    obtain ⟨seg', hrest⟩ := ih hstep.ok (fun g hg w hw => hedge g hg w (mem_cons_of_mem u hw))
      (fun hok hw hs => hvisit hok (mem_cons_of_mem u hw) hs) hall
    exact ⟨seg ++ seg', hstep.append hrest⟩

/-- **A visit keeps the invariant.** -/
theorem visit_step (h : Ok adj path s) (hedge : ∀ g, path.getLast? = some g → u ∈ adj g)
    (hvisit : visit adj fuel path u s = some s') : ∃ seg, Step adj path [u] s s' seg := by
  induction fuel generalizing path u s s' with
  | zero => cases hvisit
  | succ fuel ih =>
    rcases visit_cases hvisit with ⟨hpath, rfl⟩ | ⟨hpath, hfin, rfl⟩ |
      ⟨hpath, hfin, s₁, hall, rfl⟩
    · exact ⟨[], .back h hpath hedge⟩
    · refine ⟨[], h, (append_nil _).symm, ?_, nofun, fun _ he => he, fun _ _ => .inl, ?_⟩
      · intro w hw
        rw [mem_singleton.mp hw]
        exact .inl hfin
      · intro a _ b hb hin
        exact absurd (mem_singleton.mp hb ▸ hin) hpath
    · have hlast : ∀ g, (path ++ [u]).getLast? = some g → g = u := by
        intro g hg
        simpa using hg.symm
      obtain ⟨seg, hstep⟩ := visitAll_step (h.push hpath hfin)
        (fun g hg w hw => by rw [hlast g hg]; exact hw)
        (fun hok hw hs => ih hok (fun g hg => by rw [hlast g hg]; exact hw) hs) hall
      exact ⟨seg ++ [u], .finish h hpath hfin hstep⟩

variable {roots : List κ}

/-- **The search from the roots.** -/
theorem search_step (h : visitAll adj fuel [] roots .start = some s) :
    Step adj [] roots .start s s.finished := by
  obtain ⟨seg, hstep⟩ := visitAll_step ok_start nofun
    (fun hok _ => visit_step hok nofun) h
  have hseg : s.finished = seg := hstep.finished
  rwa [← hseg] at hstep

/-- It finds what can be reached from the roots. -/
theorem mem_finished_iff (h : visitAll adj fuel [] roots .start = some s) (n : κ) :
    n ∈ s.finished ↔ ∃ r ∈ roots, ReflTransGen (fun a b => b ∈ adj a) r n := by
  have hstep := search_step h
  constructor
  · intro hn
    obtain ⟨r, hr, -, hdown⟩ := hstep.down n hn
    exact ⟨r, hr, hdown.lift id fun _ _ hkept => hkept.2.1⟩
  · rintro ⟨r, hr, hway⟩
    induction hway with
    | refl => exact (hstep.reached r hr).resolve_right not_mem_nil
    | tail _ hadj ih => simpa using hstep.ok.neighbour ih hadj

/-! ## Fuel -/

theorem finished_mono (h : visit adj fuel path u s = some s') : s.finished <+: s'.finished := by
  induction fuel generalizing path u s s' with
  | zero => cases h
  | succ fuel ih =>
    have hall : ∀ {us s s'}, visitAll adj fuel (path ++ [u]) us s = some s' →
        s.finished <+: s'.finished := by
      intro us
      induction us with
      | nil =>
        intro s s' h
        rw [some.inj h]
      | cons c us ihs =>
        intro s s' h
        rw [visitAll_cons] at h
        obtain ⟨s₁, hs₁, h⟩ := bind_eq_some_iff.mp h
        exact (ih hs₁).trans (ihs h)
    rcases visit_cases h with ⟨-, rfl⟩ | ⟨-, -, rfl⟩ | ⟨-, -, s₁, hs₁, rfl⟩
    · exact prefix_rfl
    · exact prefix_rfl
    · exact (hall hs₁).trans (prefix_append _ _)

/-- The nodes that are not found yet. -/
def missing (nodes : Finset κ) (path : List κ) (s : State κ) : Finset κ :=
  nodes.filter fun n => n ∉ s.finished ∧ n ∉ path

theorem missing_mono (nodes : Finset κ) (path : List κ) (h : s.finished <+: s'.finished) :
    missing nodes path s' ⊆ missing nodes path s := by
  intro n hn
  simp only [missing, Finset.mem_filter] at hn ⊢
  exact ⟨hn.1, fun hin => hn.2.1 (h.subset hin), hn.2.2⟩

variable {nodes : Finset κ}

theorem visitAll_isSome (hus : ∀ u ∈ us, u ∈ nodes) (hfuel : (missing nodes path s).card < fuel)
    (hvisit : ∀ {u s}, u ∈ nodes → (missing nodes path s).card < fuel →
      (visit adj fuel path u s).isSome = true) :
    (visitAll adj fuel path us s).isSome = true := by
  induction us generalizing s with
  | nil => rfl
  | cons u us ih =>
    obtain ⟨s₁, hs₁⟩ := isSome_iff_exists.mp (hvisit (hus u (.head _)) hfuel)
    rw [visitAll_cons, hs₁]
    refine ih (fun w hw => hus w (mem_cons_of_mem u hw)) ?_
    exact (Finset.card_le_card (missing_mono nodes path (finished_mono hs₁))).trans_lt hfuel

/-- **Termination**: fuel for every node that is not found yet is enough. -/
theorem visit_isSome (hclosed : ∀ a ∈ nodes, ∀ b ∈ adj a, b ∈ nodes)
    (hu : u ∈ nodes) (hfuel : (missing nodes path s).card < fuel) :
    (visit adj fuel path u s).isSome = true := by
  induction fuel generalizing path u s with
  | zero => omega
  | succ fuel ih =>
    rw [visit]
    split
    · rfl
    next hpath =>
    split
    · rfl
    next hfin =>
    rw [contains_iff_mem] at hpath hfin
    rw [isSome_map]
    have hless : missing nodes (path ++ [u]) s ⊂ missing nodes path s := by
      refine Finset.ssubset_iff_of_subset ?_ |>.mpr ⟨u, ?_, ?_⟩
      · intro n hn
        simp only [missing, Finset.mem_filter, mem_append, not_or] at hn ⊢
        exact ⟨hn.1, hn.2.1, hn.2.2.1⟩
      · simp [missing, hu, hpath, hfin]
      · simp [missing]
    have hcard := Finset.card_lt_card hless
    exact visitAll_isSome (hclosed u hu) (by omega) ih

theorem search_isSome
    (hclosed : ∀ a ∈ nodes, ∀ b ∈ adj a, b ∈ nodes) (hroots : ∀ r ∈ roots, r ∈ nodes)
    (hfuel : nodes.card < fuel) : (visitAll adj fuel [] roots .start).isSome = true := by
  have hmissing : (missing nodes [] (State.start : State κ)).card < fuel :=
    (Finset.card_filter_le _ _).trans_lt hfuel
  exact visitAll_isSome hroots hmissing (visit_isSome hclosed)

end DepthFirst
