import Ingress.Framework.System
import Mathlib.Data.Set.Insert

/-! # Registries

    A registry lists sessions under keys.  A session is registered under a free
    key, is closed at some point, and its closing deletes **by key**: it deletes
    whatever session the key lists by then.

    `Routed` says that every open session is the one its key lists.  One step
    keeps it exactly when it deletes no open session (`Routed.step_iff`), so a
    run keeps it as long as no deletion hits one (`routed_of_reachable`). -/

open Function

namespace Registry

open LTS

variable {κ : Type u}

/-- A registry of sessions, which are numbered. -/
structure Table (κ : Type u) where
  /-- The session listed under a key. -/
  entry : κ → Option Nat
  /-- The key of each session registered so far. -/
  key : Nat → Option κ
  /-- The sessions that are not closed. -/
  opened : Set Nat
  /-- The registry has been shut. -/
  shut : Prop

/-- What can happen to a registry. -/
inductive Action (κ : Type u) where
  | register (k : κ) (i : Nat)
  | close (i : Nat)
  | delete (i : Nat) (k : κ)
  | shut

/-- The empty registry. -/
def empty : Table κ where
  entry := fun _ => none
  key := fun _ => none
  opened := ∅
  shut := False

/-- The registry as a transition system. -/
def registry (κ : Type u) [DecidableEq κ] : System (Table κ) (Action κ) where
  init := fun t => t = empty
  step := fun t act t' =>
    match act with
    | .register k i =>
        ¬ t.shut ∧ t.entry k = none ∧ t.key i = none ∧
        t' = { t with
          entry := Function.update t.entry k (some i)
          key := Function.update t.key i (some k)
          opened := insert i t.opened }
    | .close i => t' = { t with opened := t.opened \ {i} }
    | .delete i k =>
        t.key i = some k ∧ t' = { t with entry := Function.update t.entry k none }
    | .shut =>
        t' = { t with
          entry := fun _ => none
          opened := { i ∈ t.opened | ∀ k, t.entry k ≠ some i }
          shut := True }

/-- Every open session is the one its key lists, until the registry is shut. -/
def Routed (t : Table κ) : Prop :=
  ¬ t.shut → ∀ i ∈ t.opened, ∀ k, t.key i = some k → t.entry k = some i

/-- The session a deletion hits is not open. -/
def DeletesClosed (t : Table κ) : Action κ → Prop
  | .delete _ k => ∀ j, t.entry k = some j → j ∉ t.opened
  | _ => True

/-- Keys list their own sessions, open sessions have a key, and a registry that
    is shut lists nothing. -/
structure WellKeyed (t : Table κ) : Prop where
  key_of_entry : ∀ k i, t.entry k = some i → t.key i = some k
  key_of_opened : ∀ i ∈ t.opened, t.key i ≠ none
  entry_of_shut : t.shut → ∀ k, t.entry k = none

theorem wellKeyed_empty : WellKeyed (empty : Table κ) where
  key_of_entry := by simp [empty]
  key_of_opened := by simp [empty]
  entry_of_shut := by simp [empty]

variable [DecidableEq κ] {t t' : Table κ} {act : Action κ}

theorem WellKeyed.register {k : κ} {i : Nat} (h : WellKeyed t) (hshut : ¬ t.shut)
    (hkey : t.key i = none) :
    WellKeyed { t with
      entry := update t.entry k (some i)
      key := update t.key i (some k)
      opened := insert i t.opened } where
  key_of_entry := by
    intro k' j hj
    by_cases hk : k' = k
    · subst hk
      simp only [update_self, Option.some.injEq] at hj
      subst hj
      simp
    · simp only [update_of_ne hk] at hj
      -- a listed session has a key, and the new one had none
      have hji : j ≠ i := by
        intro hji
        rw [hji] at hj
        simp [h.key_of_entry k' i hj] at hkey
      simpa [update_of_ne hji] using h.key_of_entry k' j hj
  key_of_opened := by
    intro j hj
    by_cases hji : j = i
    · simp [hji]
    · simpa [update_of_ne hji] using
        h.key_of_opened j (Set.mem_of_mem_insert_of_ne hj hji)
  entry_of_shut := fun hs => absurd hs hshut

/-- Every step keeps a registry well keyed. -/
theorem WellKeyed.step (h : WellKeyed t) (hstep : (registry κ).step t act t') : WellKeyed t' := by
  cases act with
  | register k i =>
    obtain ⟨hshut, _, hkey, rfl⟩ := hstep
    exact h.register hshut hkey
  | close i =>
    obtain rfl := hstep
    exact ⟨h.key_of_entry, fun j hj => h.key_of_opened j hj.1, h.entry_of_shut⟩
  | delete i k =>
    obtain ⟨_, rfl⟩ := hstep
    refine ⟨?_, h.key_of_opened, ?_⟩
    · intro k' j hj
      by_cases hk : k' = k
      · simp [hk] at hj
      · exact h.key_of_entry k' j (by simpa [update_of_ne hk] using hj)
    · intro hs k'
      by_cases hk : k' = k
      · simp [hk]
      · simpa [update_of_ne hk] using h.entry_of_shut hs k'
  | shut =>
    obtain rfl := hstep
    exact ⟨by simp, fun j hj => h.key_of_opened j hj.1, by simp⟩

theorem wellKeyed_of_reachable (h : (registry κ).Reachable t) : WellKeyed t := by
  apply System.invariant WellKeyed ?_ ?_ h
  · intro t hinit
    rw [show t = empty from hinit]
    exact wellKeyed_empty
  · intro t act t' ht hstep
    exact ht.step hstep

/-- **One step**: an open session is listed after a step exactly when the step
    deletes no open session. -/
theorem Routed.step_iff (hkeyed : WellKeyed t) (h : Routed t)
    (hstep : (registry κ).step t act t') : Routed t' ↔ DeletesClosed t act := by
  cases act with
  | register k i =>
    obtain ⟨hshut, hfree, hkey, rfl⟩ := hstep
    refine iff_of_true ?_ trivial
    intro _ j hj k' hk'
    by_cases hji : j = i
    · subst hji
      simp only [update_self, Option.some.injEq] at hk'
      simp [hk']
    · simp only [update_of_ne hji] at hk'
      have hlisted := h hshut j (Set.mem_of_mem_insert_of_ne hj hji) k' hk'
      -- the key was free, so it is not the key of another open session
      have hk : k' ≠ k := by
        rintro rfl
        simp [hfree] at hlisted
      simpa [update_of_ne hk] using hlisted
  | close i =>
    obtain rfl := hstep
    exact iff_of_true (fun hshut j hj => h hshut j hj.1) trivial
  | delete i k =>
    obtain ⟨_, rfl⟩ := hstep
    constructor
    · -- an open session that is deleted is not listed any more
      intro hrouted j hj hopen
      have hshut : ¬ t.shut := fun hs => by simp [hkeyed.entry_of_shut hs k] at hj
      have := hrouted hshut j hopen k (hkeyed.key_of_entry k j hj)
      simp at this
    · intro hok hshut j hopen k' hk'
      have hlisted := h hshut j hopen k' hk'
      have hk : k' ≠ k := by
        rintro rfl
        exact hok j hlisted hopen
      simpa [update_of_ne hk] using hlisted
  | shut =>
    obtain rfl := hstep
    exact iff_of_true (fun hshut => absurd trivial hshut) trivial

/-- **Whole runs**: as long as every deletion hits a closed session, every open
    session is listed. -/
theorem routed_of_reachable (h : ((registry κ).restrict DeletesClosed).Reachable t) : Routed t := by
  have hboth : WellKeyed t ∧ Routed t := by
    apply System.invariant (fun t => WellKeyed t ∧ Routed t) ?_ ?_ h
    · intro t hinit
      rw [show t = empty from hinit]
      exact ⟨wellKeyed_empty, fun _ i hi => absurd hi (Set.notMem_empty i)⟩
    · intro t act t' ⟨hkeyed, hrouted⟩ ⟨hok, hstep⟩
      exact ⟨hkeyed.step hstep, (hrouted.step_iff hkeyed hstep).mpr hok⟩
  exact hboth.2

end Registry
