import Mathlib.Data.Finmap
import Mathlib.Tactic

/-! # Journals

    A map that is filled by one write after another.  The journal is the list
    of the writes, oldest first; a later write to a key replaces an earlier one.

    * `last`: what a journal leaves at a key.
    * `lookup_replay`: the map after a journal.
    * `survive_iff`: nothing that was written is lost exactly when no key was
      written twice. -/

open Finmap List

namespace Journal

variable {κ : Type u} {ν : Type v} [DecidableEq κ]

/-- The map after a list of writes. -/
def replay (m : Finmap fun _ : κ => ν) (writes : List (κ × ν)) : Finmap fun _ : κ => ν :=
  writes.foldl (fun m w => m.insert w.1 w.2) m

/-- What the last write to `k` has written. -/
def last (k : κ) : List (κ × ν) → Option ν
  | [] => none
  | (k', v) :: writes => (last k writes).or (if k' = k then some v else none)

variable {k : κ} {v : ν} {writes : List (κ × ν)} {m : Finmap fun _ : κ => ν}

/-! ## The last write -/

theorem mem_of_last (h : last k writes = some v) : (k, v) ∈ writes := by
  induction writes with
  | nil => cases h
  | cons w writes ih =>
    unfold last at h
    cases hlast : last k writes with
    | some v₀ =>
      rw [hlast] at h
      cases h
      exact .tail _ (ih hlast)
    | none =>
      rw [hlast, Option.none_or] at h
      split at h
      · next heq =>
        cases h
        subst heq
        exact .head _
      · cases h

theorem last_eq_none_iff : last k writes = none ↔ k ∉ writes.map Prod.fst := by
  induction writes with
  | nil => simp [last]
  | cons w writes ih =>
    simp only [last, Option.or_eq_none_iff, ih, map_cons, mem_cons, not_or]
    constructor
    · intro ⟨hrest, hhead⟩
      refine ⟨fun heq => ?_, hrest⟩
      rw [if_pos heq.symm] at hhead
      cases hhead
    · intro ⟨hhead, hrest⟩
      exact ⟨hrest, if_neg fun heq => hhead heq.symm⟩

theorem last_append (k : κ) (writes writes' : List (κ × ν)) :
    last k (writes ++ writes') = (last k writes').or (last k writes) := by
  induction writes with
  | nil => simp [last]
  | cons w writes ih => simp only [cons_append, last, ih, Option.or_assoc]

/-- What is left of writes of one value. -/
theorem last_of_forall (hmem : (k, v) ∈ writes) (hall : ∀ v', (k, v') ∈ writes → v' = v) :
    last k writes = some v := by
  cases hlast : last k writes with
  | none => exact absurd (mem_map_of_mem hmem) (last_eq_none_iff.mp hlast)
  | some v' => rw [hall v' (mem_of_last hlast)]

/-! ## The map -/

theorem replay_append (m : Finmap fun _ : κ => ν) (writes writes' : List (κ × ν)) :
    replay m (writes ++ writes') = replay (replay m writes) writes' :=
  foldl_append

theorem lookup_replay (k : κ) (m : Finmap fun _ : κ => ν) (writes : List (κ × ν)) :
    (replay m writes).lookup k = (last k writes).or (m.lookup k) := by
  induction writes generalizing m with
  | nil => rfl
  | cons w writes ih =>
    have hstep : replay m (w :: writes) = replay (m.insert w.1 w.2) writes := rfl
    rw [hstep, ih]
    simp only [last, Option.or_assoc]
    congr 1
    by_cases heq : w.1 = k
    · subst heq
      simp
    · rw [if_neg heq, Option.none_or, lookup_insert_of_ne _ (Ne.symm heq)]

/-! ## What is left -/

/-- **Nothing is lost**: of writes of different values, all are left at some key
    exactly when no key was written twice. -/
theorem survive_iff (hvals : (writes.map Prod.snd).Nodup) :
    (∀ v ∈ writes.map Prod.snd, ∃ k, last k writes = some v) ↔
      (writes.map Prod.fst).Nodup := by
  induction writes with
  | nil => simp
  | cons w writes ih =>
    obtain ⟨k₀, v₀⟩ := w
    simp only [map_cons, nodup_cons] at hvals ⊢
    obtain ⟨hnew, hvals⟩ := hvals
    constructor
    · intro hall
      -- the value of the first write can only be left at its own key
      obtain ⟨k, hk⟩ := hall v₀ (.head _)
      have hnone : last k writes = none := by
        cases hlast : last k writes with
        | none => rfl
        | some v =>
          simp only [last, hlast, Option.some_or, Option.some.injEq] at hk
          subst hk
          exact absurd (mem_map_of_mem (mem_of_last hlast)) hnew
      have hkey : k₀ = k := by
        by_contra hne
        simp [last, hnone, hne] at hk
      refine ⟨?_, (ih hvals).mp fun v hv => ?_⟩
      · rw [hkey]
        exact last_eq_none_iff.mp hnone
      · obtain ⟨k', hk'⟩ := hall v (.tail _ hv)
        refine ⟨k', ?_⟩
        cases hlast : last k' writes with
        | some v' => simpa [last, hlast] using hk'
        | none =>
          simp only [last, hlast, Option.none_or] at hk'
          split at hk'
          · cases hk'
            exact absurd hv hnew
          · cases hk'
    · intro ⟨hhead, hrest⟩ v hv
      rcases mem_cons.mp hv with rfl | hv
      · refine ⟨k₀, ?_⟩
        simp [last, last_eq_none_iff.mpr hhead]
      · obtain ⟨k', hk'⟩ := (ih hvals).mpr hrest v hv
        exact ⟨k', by simp [last, hk']⟩

/-! ## Journals of several parts -/

variable {α : Type w} {l : List α}

/-- The last write of a list of journals. -/
theorem last_flatMap (f : α → List (κ × ν)) (h : last k (l.flatMap f) = some v) :
    ∃ before a after, l = before ++ a :: after ∧ last k (f a) = some v ∧
      ∀ b ∈ after, last k (f b) = none := by
  induction l with
  | nil => cases h
  | cons a l ih =>
    rw [flatMap_cons, last_append] at h
    cases hrest : last k (l.flatMap f) with
    | some v' =>
      rw [hrest] at h
      cases h
      obtain ⟨before, b, after, rfl, hb, hafter⟩ := ih hrest
      exact ⟨a :: before, b, after, rfl, hb, hafter⟩
    | none =>
      rw [hrest, Option.none_or] at h
      refine ⟨[], a, l, rfl, h, fun b hb => ?_⟩
      rw [last_eq_none_iff] at hrest ⊢
      intro hmem
      obtain ⟨w, hw, hkey⟩ := mem_map.mp hmem
      exact hrest (mem_map.mpr ⟨w, mem_flatMap.mpr ⟨b, hb, hw⟩, hkey⟩)

variable {f : α → List (κ × ν)}

/-- What is left of writes, by their places: the value of one that no write to its key
    follows. -/
theorem last_map_iff {key : α → κ} {val : α → ν} : last k (l.map fun a => (key a, val a)) = some v ↔
    ∃ before a after, l = before ++ a :: after ∧ key a = k ∧ val a = v ∧ ∀ b ∈ after, key b ≠ k := by
  have hkey : ∀ b, last k [(key b, val b)] = if key b = k then some (val b) else none := by
    simp [last]
  constructor
  · intro h
    rw [map_eq_flatMap] at h
    obtain ⟨before, a, after, rfl, ha, hnone⟩ := last_flatMap _ h
    rw [hkey] at ha
    split at ha
    · next hk =>
      refine ⟨before, a, after, rfl, hk, Option.some.inj ha, fun b hb hk' => ?_⟩
      have hb := hnone b hb
      rw [hkey, if_pos hk'] at hb
      cases hb
    · cases ha
  · rintro ⟨before, a, after, rfl, rfl, rfl, hnone⟩
    have hafter : last (key a) (after.map fun a => (key a, val a)) = none := by
      rw [last_eq_none_iff, map_map]
      simpa using hnone
    rw [map_append, map_cons, last_append, last, hafter]
    simp

theorem last_flatMap_congr {g : α → List (κ × ν)}
    (h : ∀ a ∈ l, last k (f a) = last k (g a)) : last k (l.flatMap f) = last k (l.flatMap g) := by
  induction l with
  | nil => rfl
  | cons a l ih =>
    rw [flatMap_cons, flatMap_cons, last_append, last_append, h a (.head _),
      ih fun b hb => h b (.tail _ hb)]

/-- The same writes of other values. -/
theorem last_map {ξ : Type w} (f : ν → ξ) (k : κ) (writes : List (κ × ν)) :
    last k (writes.map fun w => (w.1, f w.2)) = (last k writes).map f := by
  induction writes with
  | nil => rfl
  | cons w writes ih =>
    simp only [map_cons, last, ih]
    cases last k writes with
    | some v => rfl
    | none =>
      by_cases heq : w.1 = k
      · simp [heq]
      · simp [heq]

/-- Copying journals into a map that starts empty, one after the other. -/
theorem lookup_copy {σ : Type} (get : σ → Finmap fun _ : κ => ν) {step : σ → α → σ}
    (hstep : ∀ s a, get (step s a) = replay ∅ (f a) ∪ get s) {s : σ}
    (hs : get s = ∅) (k : κ) (l : List α) : (get (l.foldl step s)).lookup k = last k (l.flatMap f) := by
  have hall : ∀ s, (get (l.foldl step s)).lookup k = (last k (l.flatMap f)).or ((get s).lookup k) := by
    induction l with
    | nil => exact fun _ => rfl
    | cons a l ih =>
      intro s
      have hcopy : (replay ∅ (f a) ∪ get s).lookup k = (last k (f a)).or ((get s).lookup k) := by
        have hreplay := lookup_replay k ∅ (f a)
        cases hlast : last k (f a) with
        | some v =>
          rw [hlast] at hreplay
          rw [lookup_union_left (mem_of_lookup_eq_some hreplay), hreplay]
          rfl
        | none =>
          rw [hlast] at hreplay
          rw [lookup_union_right (lookup_eq_none.mp hreplay)]
          rfl
      rw [foldl_cons, ih, hstep, hcopy, flatMap_cons, last_append, Option.or_assoc]
  rw [hall, hs, lookup_empty, Option.or_none]

end Journal
