import Mathlib.Tactic

/-! # Dispatch by Priority

    A list of entries that is kept sorted by priority, to which entries are added
    one after the other, and which is searched from the front for the first entry
    that accepts a request.  Asking an entry may change it, but not its priority.

    * `Sorter`: a sorting function.  It need not be stable.
    * `select`: the search.
    * `run_stored`: the entries after any run of additions and searches.
    * `select_some`, `select_none_iff`: the search finds an entry of the highest
      priority among those that accept. -/

open List

namespace Dispatch

variable {α : Type u} {κ : Type v} {ρ : Type w} {ε : Type x}

/-- The priorities never increase. -/
def Sorted (priority : α → ℤ) (l : List α) : Prop :=
  l.Pairwise fun a b => priority b ≤ priority a

/-- A sorting function for entries with priorities, the highest first. -/
structure Sorter (priority : α → ℤ) where
  sort : List α → List α
  perm : ∀ l, (sort l).Perm l
  sorted : ∀ l, Sorted priority (sort l)

/-- Sorting by insertion, as an instance. -/
def Sorter.insertion (priority : α → ℤ) : Sorter priority where
  sort l := l.insertionSort fun a b => priority b ≤ priority a
  perm l := l.perm_insertionSort _
  sorted l :=
    haveI : Std.Total fun a b : α => priority b ≤ priority a := ⟨fun _ _ => le_total _ _⟩
    haveI : IsTrans α fun a b : α => priority b ≤ priority a := ⟨fun _ _ _ h h' => h'.trans h⟩
    List.pairwise_insertionSort _ l

/-- Search for the first entry that accepts.  Each entry up to it is asked once. -/
def select (ask : α → Bool × α) : List α → Option α × List α
  | [] => (none, [])
  | x :: l =>
    if (ask x).1 then (some x, (ask x).2 :: l)
    else ((select ask l).1, (ask x).2 :: (select ask l).2)

/-! ## One search -/

variable {priority : α → ℤ} {ask : α → Bool × α} {l : List α}

theorem select_none_iff : (select ask l).1 = none ↔ ∀ x ∈ l, (ask x).1 = false := by
  induction l with
  | nil => simp [select]
  | cons x l ih =>
    cases hx : (ask x).1 <;> simp [select, hx, ih]

/-- **The search** finds an entry that accepts, and none that accepts has a higher
    priority. -/
theorem select_some (hl : Sorted priority l) {x : α} (h : (select ask l).1 = some x) :
    x ∈ l ∧ (ask x).1 = true ∧ ∀ y ∈ l, (ask y).1 = true → priority y ≤ priority x := by
  induction l with
  | nil => cases h
  | cons z l ih =>
    obtain ⟨hz, hl⟩ := pairwise_cons.mp hl
    cases hacc : (ask z).1 with
    | true =>
      obtain rfl : z = x := by simpa [select, hacc] using h
      refine ⟨.head _, hacc, fun y hy _ => ?_⟩
      rcases mem_cons.mp hy with rfl | hy
      · exact le_rfl
      · exact hz y hy
    | false =>
      obtain ⟨hmem, hx, hmax⟩ := ih hl (by simpa [select, hacc] using h)
      refine ⟨mem_cons_of_mem z hmem, hx, fun y hy haccepts => ?_⟩
      rcases mem_cons.mp hy with rfl | hy
      · rw [hacc] at haccepts
        cases haccepts
      · exact hmax y hy haccepts

theorem exists_select (hl : Sorted priority l) (h : ∃ x ∈ l, (ask x).1 = true) :
    ∃ x ∈ l, (ask x).1 = true ∧ (∀ y ∈ l, (ask y).1 = true → priority y ≤ priority x) ∧
      (select ask l).1 = some x := by
  obtain ⟨x, hx, hacc⟩ := h
  cases hselect : (select ask l).1 with
  | none =>
    rw [select_none_iff.mp hselect x hx] at hacc
    cases hacc
  | some best =>
    obtain ⟨hmem, hbest, hmax⟩ := select_some hl hselect
    exact ⟨best, hmem, hbest, hmax, rfl⟩

/-- When nothing that comes after an entry that accepts changes, all entries may as
    well be asked. -/
theorem select_map (hl : Sorted priority l)
    (h : ∀ x ∈ l, (ask x).1 = true → ∀ y ∈ l, priority y ≤ priority x → (ask y).2 = y) :
    (select ask l).2 = l.map fun x => (ask x).2 := by
  induction l with
  | nil => rfl
  | cons x l ih =>
    obtain ⟨hx, hl⟩ := pairwise_cons.mp hl
    cases hacc : (ask x).1 with
    | true =>
      have hrest : l.map (fun y => (ask y).2) = l := by
        refine (map_congr_left fun y hy => ?_).trans l.map_id
        exact h x (.head _) hacc y (.tail _ hy) (hx y hy)
      simp [select, hacc, hrest]
    | false =>
      have hrest := ih hl fun x hx hacc y hy =>
        h x (.tail _ hx) hacc y (.tail _ hy)
      simp [select, hacc, hrest]

/-- Each entry was asked once, or not at all. -/
theorem forall₂_select : List.Forall₂ (fun x y => y = x ∨ y = (ask x).2) l (select ask l).2 := by
  induction l with
  | nil => exact .nil
  | cons x l ih =>
    unfold select
    split
    · exact .cons (.inr rfl) (forall₂_same.mpr fun y _ => .inl rfl)
    · exact .cons (.inr rfl) ih

theorem sorted_of_forall₂ {l' : List α} (h : List.Forall₂ (fun x y => priority y = priority x) l l')
    (hl : Sorted priority l) : Sorted priority l' := by
  have hmap : l'.map priority = l.map priority := by
    induction h with
    | nil => rfl
    | cons hxy _ ih => rw [map_cons, map_cons, hxy, ih (pairwise_cons.mp hl).2]
  have hsorted : (l.map priority).Pairwise fun p q => q ≤ p := pairwise_map.mpr hl
  exact pairwise_map.mp (hmap ▸ hsorted)

/-! ## Runs -/

/-- An addition, or a search. -/
inductive Event (κ : Type v) (ρ : Type w) where
  | add (call : κ)
  | serve (req : ρ)

/-- One event.  An addition whose entry cannot be built leaves the list as it is. -/
def step (s : Sorter priority) (build : κ → Except ε α) (ask : ρ → α → Bool × α) (l : List α) :
    Event κ ρ → List α
  | .add call =>
    match build call with
    | .ok x => s.sort (l ++ [x])
    | .error _ => l
  | .serve req => (select (ask req) l).2

/-- The list after the events. -/
def run (s : Sorter priority) (build : κ → Except ε α) (ask : ρ → α → Bool × α)
    (events : List (Event κ ρ)) : List α :=
  events.foldl (step s build ask) []

/-- The entry of an event, when it is an addition that succeeds. -/
def Event.entry (build : κ → Except ε α) : Event κ ρ → Option α
  | .add call => (build call).toOption
  | .serve _ => none

/-- `y` is `x` after it was asked about some requests. -/
inductive Asked (ask : ρ → α → Bool × α) (x : α) : α → Prop where
  | refl : Asked ask x x
  | step {y : α} (before : Asked ask x y) (req : ρ) : Asked ask x (ask req y).2

/-- The list holds the entries of `added` and nothing else, sorted. -/
structure Stored (priority : α → ℤ) (ask : ρ → α → Bool × α) (added l : List α) : Prop where
  entries : ∃ l', List.Forall₂ (Asked ask) added l' ∧ l'.Perm l
  sorted : Sorted priority l

variable {s : Sorter priority} {build : κ → Except ε α} {ask : ρ → α → Bool × α}

variable {added l : List α}

/-- Each entry of the list is one that was added. -/
theorem Stored.mem (h : Stored priority ask added l) {y : α} (hy : y ∈ l) :
    ∃ x ∈ added, Asked ask x y := by
  obtain ⟨l', hasked, hperm⟩ := h.entries
  replace hy := hperm.mem_iff.mpr hy
  clear hperm h
  induction hasked with
  | nil => cases hy
  | cons hxy _ ih =>
    rcases mem_cons.mp hy with rfl | hy
    · exact ⟨_, .head _, hxy⟩
    · obtain ⟨x, hx, hxy⟩ := ih hy
      exact ⟨x, .tail _ hx, hxy⟩

/-- Each entry that was added is in the list. -/
theorem Stored.mem_of_added (h : Stored priority ask added l) {x : α}
    (hx : x ∈ added) : ∃ y ∈ l, Asked ask x y := by
  obtain ⟨l', hasked, hperm⟩ := h.entries
  obtain ⟨y, hy, hxy⟩ : ∃ y ∈ l', Asked ask x y := by
    clear hperm h
    induction hasked with
    | nil => cases hx
    | cons hxy _ ih =>
      rcases mem_cons.mp hx with rfl | hx
      · exact ⟨_, .head _, hxy⟩
      · obtain ⟨y, hy, hxy⟩ := ih hx
        exact ⟨y, .tail _ hy, hxy⟩
  exact ⟨y, hperm.mem_iff.mp hy, hxy⟩

theorem Stored.add (h : Stored priority ask added l) (x : α) :
    Stored priority ask (added ++ [x]) (s.sort (l ++ [x])) where
  entries := by
    obtain ⟨l', hasked, hperm⟩ := h.entries
    refine ⟨l' ++ [x], rel_append hasked (.cons .refl .nil), ?_⟩
    exact (hperm.append_right [x]).trans (s.perm _).symm
  sorted := s.sorted _

theorem Stored.serve (hprio : ∀ req x, priority (ask req x).2 = priority x)
    (h : Stored priority ask added l) (req : ρ) :
    Stored priority ask added (select (ask req) l).2 where
  entries := by
    obtain ⟨l', hasked, hperm⟩ := h.entries
    obtain ⟨l'', hselect, hperm'⟩ := perm_comp_forall₂ hperm (forall₂_select)
    refine ⟨l'', ?_, hperm'⟩
    clear hperm hperm' h
    induction hasked generalizing l'' with
    | nil =>
      cases hselect
      exact .nil
    | cons hxy _ ih =>
      cases hselect with
      | cons hyz hrest =>
        refine .cons ?_ (ih _ hrest)
        rcases hyz with rfl | rfl
        · exact hxy
        · exact hxy.step req
  sorted := sorted_of_forall₂
    (forall₂_select.imp fun x y h => by rcases h with rfl | rfl <;> simp [hprio]) h.sorted

open Event

theorem Stored.step (s : Sorter priority) (build : κ → Except ε α)
    (hprio : ∀ req x, priority (ask req x).2 = priority x)
    (h : Stored priority ask added l) (e : Event κ ρ) :
    Stored priority ask (added ++ (e.entry build).toList) (step s build ask l e) := by
  cases e with
  | serve req => simpa [entry, Dispatch.step] using h.serve hprio req
  | add call =>
    cases hbuild : build call with
    | error => simpa [entry, Dispatch.step, hbuild, Except.toOption] using h
    | ok x => simpa [entry, Dispatch.step, hbuild, Except.toOption] using h.add x

/-- **Runs**: after any events the list holds exactly the entries that were added. -/
theorem run_stored (hprio : ∀ req x, priority (ask req x).2 = priority x) (evs : List (Event κ ρ)) :
    Stored priority ask (evs.filterMap (entry build)) (run s build ask evs) := by
  have hrun : ∀ added l : List α, Stored priority ask added l →
      Stored priority ask (added ++ evs.filterMap (entry build))
        (evs.foldl (Dispatch.step s build ask) l) := by
    induction evs with
    | nil =>
      intro added l h
      simpa using h
    | cons e evs ih =>
      intro added l h
      have hnext := ih _ _ (h.step s build hprio e)
      cases he : e.entry build <;> simpa [he] using hnext
  exact hrun [] [] ⟨⟨[], .nil, .nil⟩, .nil⟩

/-- Additions alone keep the entries as they were built. -/
theorem run_adds (s : Sorter priority) (build : κ → Except ε α) (ask : ρ → α → Bool × α)
    (calls : List κ) :
    (run s build ask (calls.map .add)).Perm (calls.filterMap fun c => (build c).toOption) ∧
      Sorted priority (run s build ask (calls.map .add)) := by
  have hrun : ∀ l : List α, Sorted priority l →
      ((calls.map add).foldl (step s build ask) l).Perm
          (l ++ calls.filterMap fun c => (build c).toOption) ∧
        Sorted priority ((calls.map add).foldl (step s build ask) l) := by
    induction calls with
    | nil => exact fun l hl => ⟨by simp, hl⟩
    | cons c calls ih =>
      intro l hl
      cases hbuild : build c with
      | error => simpa [step, hbuild, Except.toOption] using ih l hl
      | ok x =>
        obtain ⟨hperm, hsorted⟩ := ih (s.sort (l ++ [x])) (s.sorted _)
        refine ⟨?_, by simpa [step, hbuild] using hsorted⟩
        have happend := hperm.trans ((s.perm (l ++ [x])).append_right _)
        simpa [step, hbuild, Except.toOption] using happend
  simpa [run] using hrun [] .nil

end Dispatch
