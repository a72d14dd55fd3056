import Mathlib.Data.List.Nodup

/-! # Ordered Multimaps

    A list of fields, each a key with a value, in which a key may stand several times.  What a
    program sees of it are the values at a key, in their order.

    * `values`, `peek`: all values at a key, and the first of them.
    * `del`, `set`, `listing`: the operations, each with what it does to the values at every key.
    * `under`: the values at all the keys that a function takes to one name, as when names are
      compared up to case.
    * `foldl_pair`: a loop over pairs of keys, each turn of which changes its own two keys only. -/

universe u v w

open List

namespace Multimap

variable {κ : Type u} {ι : Type w} {β : Type v} [DecidableEq κ] [DecidableEq ι]

/-! ## Operations -/

/-- The values at a key, in their order. -/
def values (m : List (κ × β)) (k : κ) : List β :=
  (m.filter fun f => f.1 = k).map Prod.snd

/-- The first value at a key. -/
def peek (m : List (κ × β)) (k : κ) : Option β :=
  (values m k).head?

/-- Remove all fields with a key. -/
def del (m : List (κ × β)) (k : κ) : List (κ × β) :=
  m.filter fun f => f.1 ≠ k

/-- The first field with the key takes the value, and a field is added when there is none.  With
    `drop` the other fields with the key are removed. -/
def set (drop : Bool) : List (κ × β) → κ → β → List (κ × β)
  | [], k, v => [(k, v)]
  | f :: m, k, v =>
    if f.1 = k then (k, v) :: (if drop then del m k else m) else f :: set drop m k v

/-- The fields of a map, whose keys are taken in an order. -/
def listing (order : List κ) (h : κ → List β) : List (κ × β) :=
  order.flatMap fun k => (h k).map fun v => (k, v)

/-- The values at the keys that `fold` takes to a name. -/
def under (fold : κ → ι) (m : List (κ × β)) (name : ι) : List β :=
  (m.filter fun f => fold f.1 = name).map Prod.snd

/-! ## Values -/

@[simp] theorem values_nil (k : κ) : values ([] : List (κ × β)) k = [] := rfl

theorem values_cons (f : κ × β) (m : List (κ × β)) (k : κ) :
    values (f :: m) k = if f.1 = k then f.2 :: values m k else values m k := by
  by_cases h : f.1 = k
  · rw [values, filter_cons_of_pos (by simpa using h), if_pos h]
    rfl
  · rw [values, filter_cons_of_neg (by simpa using h), if_neg h]
    rfl

variable {m : List (κ × β)} {k : κ}

theorem values_eq_nil (h : ∀ f ∈ m, f.1 ≠ k) : values m k = [] := by
  rw [values, filter_eq_nil_iff.mpr fun f hf => by simpa using h f hf]
  rfl

theorem values_del (m : List (κ × β)) (k k' : κ) :
    values (del m k) k' = if k' = k then [] else values m k' := by
  rw [values, del, filter_filter]
  split
  · next h => simp [h]
  · next h =>
    congr 1
    apply filter_congr
    intro f _
    by_cases hf : f.1 = k'
    · simp [hf, h]
    · simp [hf]

theorem values_foldl_del (keys : List κ) (m : List (κ × β)) (k : κ) :
    values (keys.foldl del m) k = if k ∈ keys then [] else values m k := by
  induction keys generalizing m with
  | nil => rfl
  | cons k' keys ih =>
    rw [foldl_cons, ih, values_del]
    by_cases hmem : k ∈ keys <;> by_cases hk : k = k' <;> simp [hmem, hk]

theorem values_set (drop : Bool) (m : List (κ × β)) (k : κ) (v : β) (k' : κ) :
    values (set drop m k v) k' =
      if k' = k then v :: (if drop then [] else (values m k).tail) else values m k' := by
  induction m with
  | nil =>
    rw [set, values_cons]
    by_cases hk : k' = k
    · simp [hk]
    · simp [hk, Ne.symm hk]
  | cons f m ih =>
    by_cases hf : f.1 = k
    · -- the first field with the key
      rw [set, if_pos hf, values_cons, values_cons, values_cons, hf]
      by_cases hk : k' = k
      · subst hk
        cases drop <;> simp [values_del]
      · cases drop <;> simp [values_del, hk, Ne.symm hk]
    · rw [set, if_neg hf, values_cons, values_cons, values_cons, ih, if_neg hf]
      by_cases hk : k' = k
      · subst hk
        simp [hf]
      · simp [hk]

theorem values_listing {order : List κ} (h : κ → List β) (hnd : order.Nodup)
    (hk : k ∉ order → h k = []) : values (listing order h) k = h k := by
  induction order with
  | nil => exact (hk (by simp)).symm
  | cons k' order ih =>
    rw [nodup_cons] at hnd
    have hcons : values (listing (k' :: order) h) k =
        values ((h k').map fun v => (k', v)) k ++ values (listing order h) k := by
      simp [values, listing]
    rw [hcons]
    by_cases hkk : k = k'
    · subst hkk
      have hrest : values (listing order h) k = [] := by
        apply values_eq_nil
        intro f hf heq
        obtain ⟨k₂, hk₂, hmem⟩ := mem_flatMap.mp hf
        obtain ⟨v, -, rfl⟩ := mem_map.mp hmem
        exact hnd.1 (heq ▸ hk₂)
      rw [hrest, append_nil]
      simp [values, filter_map, Function.comp_def]
    · have hhead : values ((h k').map fun v => (k', v)) k = [] := by
        apply values_eq_nil
        intro f hf heq
        obtain ⟨v, -, rfl⟩ := mem_map.mp hf
        exact hkk heq.symm
      rw [hhead, nil_append]
      exact ih hnd.2 fun hmem => hk (by simp [hkk, hmem])

/-! ## Keys -/

variable {f : κ × β}

theorem mem_of_mem_foldl_del {keys : List κ} (h : f ∈ keys.foldl del m) : f ∈ m := by
  induction keys generalizing m with
  | nil => exact h
  | cons k keys ih => exact mem_of_mem_filter (ih h)

theorem key_of_mem_set {drop : Bool} {v : β} (h : f ∈ set drop m k v) : f.1 = k ∨ f ∈ m := by
  induction m with
  | nil => exact .inl (by rw [mem_singleton.mp h])
  | cons g m ih =>
    rw [set] at h
    split at h
    · rcases mem_cons.mp h with rfl | hmem
      · exact .inl rfl
      · right
        apply mem_cons_of_mem
        cases drop
        · exact hmem
        · exact mem_of_mem_filter hmem
    · rcases mem_cons.mp h with rfl | hmem
      · exact .inr (.head _)
      · exact (ih hmem).imp id (mem_cons_of_mem _)

omit [DecidableEq κ] in
theorem key_of_mem_listing {order : List κ} {h : κ → List β}
    (hf : f ∈ listing order h) : f.1 ∈ order := by
  obtain ⟨k, hk, hmem⟩ := mem_flatMap.mp hf
  obtain ⟨v, -, rfl⟩ := mem_map.mp hmem
  exact hk

/-! ## Names up to a function -/

section Under

variable {fold : κ → ι} {m : List (κ × β)} {name : ι}

/-- Only one key has the name. -/
theorem under_eq_values (h : ∀ f ∈ m, fold f.1 = name ↔ f.1 = k) :
    under fold m name = values m k := by
  rw [under, values]
  congr 1
  apply filter_congr
  intro f hf
  simp [h f hf]

omit [DecidableEq κ] in
theorem under_cons (f : κ × β) :
    under fold (f :: m) name = if fold f.1 = name then f.2 :: under fold m name
      else under fold m name := by
  by_cases h : fold f.1 = name
  · rw [under, filter_cons_of_pos (by simpa using h), if_pos h]
    rfl
  · rw [under, filter_cons_of_neg (by simpa using h), if_neg h]
    rfl

/-- Two keys have the name. -/
theorem under_perm {k k' : κ} (hne : k ≠ k') (h : ∀ f ∈ m, fold f.1 = name ↔ f.1 = k ∨ f.1 = k') :
    (under fold m name).Perm (values m k ++ values m k') := by
  induction m with
  | nil => exact .nil
  | cons f m ih =>
    have ih := ih fun g hg => h g (.tail _ hg)
    have hf := h f (.head _)
    rw [under_cons, values_cons, values_cons]
    by_cases hk : f.1 = k
    · have hk' : f.1 ≠ k' := fun heq => hne (hk.symm.trans heq)
      rw [if_pos (hf.mpr (.inl hk)), if_pos hk, if_neg hk']
      exact ih.cons f.2
    · rw [if_neg hk]
      by_cases hk' : f.1 = k'
      · -- the field goes to the second list
        rw [if_pos (hf.mpr (.inr hk')), if_pos hk']
        exact (ih.cons f.2).trans perm_middle.symm
      · have hname : fold f.1 ≠ name := fun heq => (hf.mp heq).elim hk hk'
        rw [if_neg hname, if_neg hk']
        exact ih

end Under

/-! ## Loops over pairs of keys -/

section Pairs

variable {σ : Type u} {val : σ → κ → List β} {step : σ → κ × κ → σ}

omit [DecidableEq κ] in
theorem foldl_frame (hframe : ∀ s p k, k ≠ p.1 → k ≠ p.2 → val (step s p) k = val s k)
    (pairs : List (κ × κ)) (s : σ) (h : ∀ p ∈ pairs, k ≠ p.1 ∧ k ≠ p.2) :
    val (pairs.foldl step s) k = val s k := by
  induction pairs generalizing s with
  | nil => rfl
  | cons p pairs ih =>
    have hp := h p (.head _)
    rw [foldl_cons, ih _ fun q hq => h q (.tail _ hq)]
    exact hframe s p k hp.1 hp.2

/-- No two of the pairs share a key. -/
def Apart (p q : κ × κ) : Prop :=
  (p.1 ≠ q.1 ∧ p.1 ≠ q.2) ∧ p.2 ≠ q.1 ∧ p.2 ≠ q.2

instance (p q : κ × κ) : Decidable (Apart p q) :=
  inferInstanceAs (Decidable (_ ∧ _))

omit [DecidableEq κ] in
/-- When every turn makes `g` of what is at the first key of its pair, and leaves all other keys
    alone, the loop does so for every pair. -/
theorem foldl_pair {g : List β → List β}
    (hframe : ∀ s p k, k ≠ p.1 → k ≠ p.2 → val (step s p) k = val s k)
    {pairs : List (κ × κ)} (hown : ∀ s, ∀ p ∈ pairs, val s p.2 = [] →
      val (step s p) p.1 ++ val (step s p) p.2 = g (val s p.1))
    (hapart : pairs.Pairwise Apart) {p : κ × κ} (hp : p ∈ pairs) (s : σ) (hs : val s p.2 = []) :
    val (pairs.foldl step s) p.1 ++ val (pairs.foldl step s) p.2 = g (val s p.1) := by
  induction pairs generalizing s with
  | nil => cases hp
  | cons q pairs ih =>
    rw [pairwise_cons] at hapart
    rw [foldl_cons]
    rcases mem_cons.mp hp with rfl | hmem
    · -- the other pairs are apart from this one
      rw [foldl_frame hframe pairs _ fun q hq => (hapart.1 q hq).1,
        foldl_frame hframe pairs _ fun q hq => (hapart.1 q hq).2]
      exact hown s p (.head _) hs
    · have hq := hapart.1 p hmem
      have hfirst : val (step s q) p.1 = val s p.1 := hframe s q p.1 hq.1.1.symm hq.2.1.symm
      have hsecond : val (step s q) p.2 = val s p.2 := hframe s q p.2 hq.1.2.symm hq.2.2.symm
      rw [← hfirst]
      exact ih (fun s r hr => hown s r (.tail _ hr)) hapart.2 hmem _
        (hsecond.trans hs)

end Pairs

end Multimap
