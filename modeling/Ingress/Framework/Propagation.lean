import Ingress.Framework.Reference

/-! # Propagation of Status

    Nodes that are up or down and record, in slots, whether other nodes are.
    Setting a slot changes the node that owns it; when that node has something
    to tell, it sets the slots that watch it, one after the other, and so on.
    Nobody is told of a change that does not show (`Network.up_of_silent`), so
    what a slot records is right only if it was right before.

    * `Network.setStatus`: setting a slot, with a bound on the depth of calls.
    * `Network.setStatus_done`: what a call that comes to its end leaves; slots
      that were right are right afterwards, while the slots of calls under way
      may be wrong (`Done.exact`).
    * `Network.setStatus_ends`: calls come to an end when no node watches
      itself through others. -/

open Reference List

namespace Propagation

/-- Nodes with states `S n`, and slots `E`. -/
structure Network (N E : Type) [DecidableEq N] (S : N → Type) where
  /-- The node that a slot belongs to. -/
  owner : E → N
  /-- The slots that record the status of a node, in the order they are told. -/
  watchers : N → List E
  /-- The status of a node. -/
  up : (n : N) → S n → Bool
  /-- What a slot records. -/
  records : (e : E) → S (owner e) → Bool
  /-- The state of the owner once a slot is set, and what its watchers are told. -/
  set : (e : E) → Bool → S (owner e) → S (owner e) × Option Bool
  records_set : ∀ e v s, records e (set e v s).1 = v
  records_set_of_ne : ∀ e e' v (s : ∀ n, S n), e' ≠ e →
    records e' (Function.update s (owner e) (set e v (s (owner e))).1 (owner e')) =
      records e' (s (owner e'))
  up_of_silent : ∀ e v s, (set e v s).2 = none → up (owner e) (set e v s).1 = up (owner e) s
  up_of_told : ∀ e v s u, (set e v s).2 = some u → up (owner e) (set e v s).1 = u
  watchers_unique : ∀ e n n', e ∈ watchers n → e ∈ watchers n' → n = n'

namespace Network

variable {N E : Type} [DecidableEq N] {S : N → Type} (net : Network N E S)

/-- The nodes that record the status of a node. -/
def parents (n : N) : List N :=
  (net.watchers n).map net.owner

/-- The state once a slot is set and before anybody is told. -/
def write (e : E) (v : Bool) (s : ∀ n, S n) : ∀ n, S n :=
  Function.update s (net.owner e) (net.set e v (s (net.owner e))).1

/-- Set a slot, and tell the watchers of its owner. -/
def setStatus : Nat → E → Bool → (∀ n, S n) → Option (∀ n, S n)
  | 0, _, _, _ => none
  | fuel + 1, e, v, s =>
    match (net.set e v (s (net.owner e))).2 with
    | none => some (net.write e v s)
    | some u =>
      (net.watchers (net.owner e)).foldlM (fun s e' => setStatus fuel e' u s) (net.write e v s)

/-- A slot is right: it records the status of the node it watches. -/
def Exact (s : ∀ n, S n) (e : E) : Prop :=
  ∀ n, e ∈ net.watchers n → net.records e (s (net.owner e)) = net.up n (s n)

/-- What is left when setting the slot `e` to `v` has come to its end.  `exact`:
    slots that may be wrong apart, what was right is right. -/
structure Done (e : E) (v : Bool) (s s' : ∀ n, S n) : Prop where
  recorded : net.records e (s' (net.owner e)) = v
  frame : ∀ n, ¬ Reaches net.parents (net.owner e) n → s' n = s n
  exact : ∀ wrong : Set E, (∀ e' ∉ wrong, net.Exact s e') →
    ∀ e' ∉ wrong, e' ≠ e → net.Exact s' e'

variable {net} {e e' : E} {v u : Bool} {n p : N} {s s' : ∀ n, S n}

theorem refers_owner (he : e ∈ net.watchers p) : Refers net.parents p (net.owner e) :=
  mem_map_of_mem he

/-! ## Writing a slot -/

@[simp] theorem write_owner : net.write e v s (net.owner e) = (net.set e v (s (net.owner e))).1 :=
  Function.update_self ..

theorem write_of_ne (h : n ≠ net.owner e) : net.write e v s n = s n := Function.update_of_ne h ..

theorem records_write (h : e' ≠ e) :
    net.records e' (net.write e v s (net.owner e')) = net.records e' (s (net.owner e')) :=
  net.records_set_of_ne e e' v s h

/-- Slots that do not watch the owner are as right as before. -/
theorem exact_write (h : e' ≠ e) (hwatch : e' ∉ net.watchers (net.owner e))
    (hexact : net.Exact s e') : net.Exact (net.write e v s) e' := by
  intro n hn
  have hne : n ≠ net.owner e := fun heq => hwatch (heq ▸ hn)
  rw [records_write h, write_of_ne hne]
  exact hexact n hn

/-- When nobody has to be told, the watchers of the owner are right as well. -/
theorem exact_write_of_silent (hsilent : (net.set e v (s (net.owner e))).2 = none) (h : e' ≠ e)
    (hexact : net.Exact s e') : net.Exact (net.write e v s) e' := by
  by_cases hwatch : e' ∈ net.watchers (net.owner e)
  · intro n hn
    obtain rfl := net.watchers_unique e' n _ hn hwatch
    rw [records_write h, write_owner, net.up_of_silent e v _ hsilent]
    exact hexact _ hn
  · exact exact_write h hwatch hexact

/-! ## Telling the watchers -/

variable {fuel : Nat}

/-- **One watcher after the other**: those that have been told are right. -/
theorem tell_done (hacyclic : ∀ n, ¬ OnCycle net.parents n)
    (ih : ∀ e v s s', net.setStatus fuel e v s = some s' → net.Done e v s s')
    (hu : net.up p (s p) = u) {told : List E} (htold : ∀ e ∈ told, e ∈ net.watchers p)
    (h : told.foldlM (fun s e => net.setStatus fuel e u s) s = some s') :
    s' p = s p ∧ (∀ n, ¬ DependsOn net.parents p n → s' n = s n) ∧
    ∀ wrong : Set E, (∀ e' ∉ wrong, e' ∉ told → net.Exact s e') →
      ∀ e' ∉ wrong, net.Exact s' e' := by
  induction told generalizing s with
  | nil =>
    obtain rfl : s = s' := by simpa using h
    exact ⟨rfl, fun _ _ => rfl, fun wrong hall e' he' => hall e' he' (by simp)⟩
  | cons e told iht =>
    rw [foldlM_cons] at h
    obtain ⟨s₁, hset, hrest⟩ := Option.bind_eq_some_iff.mp h
    have hdone := ih e u s s₁ hset
    have hwatch : e ∈ net.watchers p := htold e (.head _)
    have hframe : ∀ n, ¬ DependsOn net.parents p n → s₁ n = s n := by
      intro n hn
      apply hdone.frame
      intro hreach
      exact hn (.head' (refers_owner hwatch) hreach)
    -- the node that tells does not change meanwhile, as it does not depend on itself
    have hp : s₁ p = s p := hframe p (hacyclic p)
    obtain ⟨hp', hframe', hexact'⟩ :=
      iht (by rw [hp, hu]) (fun e' he' => htold e' (mem_cons_of_mem e he')) hrest
    refine ⟨hp'.trans hp, fun n hn => (hframe' n hn).trans (hframe n hn), ?_⟩
    intro wrong hall
    apply hexact'
    intro e' he' hlater
    by_cases hee' : e' = e
    · -- the watcher that has just been told
      subst hee'
      intro n hn
      obtain rfl := net.watchers_unique _ _ _ hn hwatch
      rw [hdone.recorded, hp, hu]
    · -- those still to be told may be wrong during the call
      apply hdone.exact (wrong ∪ { x | x ∈ e :: told }) _ e' _ hee'
      · intro x hx
        simp only [Set.mem_union, Set.mem_ofPred_eq, not_or] at hx
        exact hall x hx.1 hx.2
      · simp only [Set.mem_union, Set.mem_ofPred_eq, mem_cons, not_or]
        exact ⟨he', hee', hlater⟩

/-- **What a call leaves**: by induction on the depth of calls. -/
theorem setStatus_done (hacyclic : ∀ n, ¬ OnCycle net.parents n)
    (h : net.setStatus fuel e v s = some s') : net.Done e v s s' := by
  induction fuel generalizing e v s s' with
  | zero => cases h
  | succ fuel ih =>
    unfold setStatus at h
    have hself : ∀ n, ¬ Reaches net.parents (net.owner e) n → n ≠ net.owner e := by
      intro n hn heq
      exact hn (heq ▸ .refl)
    split at h
    · next hsilent =>
      cases h
      refine ⟨?_, fun n hn => write_of_ne (hself n hn), ?_⟩
      · rw [write_owner, net.records_set]
      · intro wrong hall e' he' hne
        exact exact_write_of_silent hsilent hne (hall e' he')
    · next u htold =>
      have hu : net.up (net.owner e) (net.write e v s (net.owner e)) = u := by
        rw [write_owner]
        exact net.up_of_told e v _ u htold
      obtain ⟨howner, hframe, hexact⟩ :=
        tell_done hacyclic (fun _ _ _ _ => ih) hu (fun _ he' => he') h
      refine ⟨?_, ?_, ?_⟩
      · rw [howner, write_owner, net.records_set]
      · intro n hn
        rw [hframe n fun hdep => hn hdep.to_reflTransGen, write_of_ne (hself n hn)]
      · intro wrong hall e' he' hne
        -- until they are told, the slot itself and the watchers of its owner may be wrong
        apply hexact (insert e wrong) _ e' (by simp [he', hne])
        intro x hx hwatch
        simp only [Set.mem_insert_iff, not_or] at hx
        exact exact_write hx.1 hwatch (hall x hx.2)

/-! ## Termination -/

theorem tell_ends {told : List E}
    (h : ∀ e ∈ told, ∀ s, ∃ s', net.setStatus fuel e u s = some s') (s : ∀ n, S n) :
    ∃ s', told.foldlM (fun s e => net.setStatus fuel e u s) s = some s' := by
  induction told generalizing s with
  | nil => exact ⟨s, rfl⟩
  | cons e told ih =>
    obtain ⟨s₁, hset⟩ := h e (.head _) s
    obtain ⟨s', hrest⟩ := ih (fun x hx => h x (mem_cons_of_mem e hx)) s₁
    refine ⟨s', ?_⟩
    rw [foldlM_cons, hset]
    exact hrest

/-- **Calls come to an end** when the chains of watchers do. -/
theorem setStatus_ends (h : Grounded net.parents (net.owner e)) :
    ∃ fuel, ∀ v s, ∃ s', net.setStatus fuel e v s = some s' := by
  -- one more call is deep enough when it is for the slots of all parents
  have hstep : ∀ n fuel, (∀ c, Refers net.parents n c → ∀ e, net.owner e = c →
      ∀ v s, ∃ s', net.setStatus fuel e v s = some s') →
      ∀ e, net.owner e = n → ∀ v s, ∃ s', net.setStatus (fuel + 1) e v s = some s' := by
    intro n fuel ih e he v s
    subst he
    unfold setStatus
    split
    · exact ⟨_, rfl⟩
    · next u _ => exact tell_ends (fun e' he' => ih _ (refers_owner he') e' rfl u) _
  obtain ⟨bound, hbound⟩ := h.eventually (fun n fuel => ∀ e, net.owner e = n →
    ∀ v s, ∃ s', net.setStatus fuel e v s = some s') hstep
  exact ⟨bound, hbound bound le_rfl e rfl⟩

end Network

end Propagation
