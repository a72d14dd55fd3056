import Mathlib.Algebra.Order.BigOperators.Group.List
import Mathlib.Algebra.Order.Group.Nat
import Mathlib.Data.Set.Finite.Basic
import Mathlib.Order.WellFounded

/-! # Reference Graphs

    Things that are built from other things, by name: `refs n` is the list of
    what `n` refers to, and some things are broken by themselves.

    * `Grounded`: every chain of references from `n` ends.
    * `Sound`: `n` can be built, everything it refers to first.

    When only finitely many things refer to others, a chain that does not end
    comes back to where it has been: `grounded_iff` and `sound_iff`. -/

namespace Reference

variable {ν : Type u} {refs : ν → List ν} {Broken : ν → Prop} {n m c : ν}

/-- `n` refers to `c`. -/
def Refers (refs : ν → List ν) (n c : ν) : Prop :=
  c ∈ refs n

/-- `m` is `n`, or something `n` depends on. -/
def Reaches (refs : ν → List ν) : ν → ν → Prop :=
  Relation.ReflTransGen (Refers refs)

/-- `n` depends on `m`. -/
def DependsOn (refs : ν → List ν) : ν → ν → Prop :=
  Relation.TransGen (Refers refs)

/-- `n` depends on itself. -/
def OnCycle (refs : ν → List ν) (n : ν) : Prop :=
  DependsOn refs n n

/-- Every chain of references from `n` ends. -/
def Grounded (refs : ν → List ν) (n : ν) : Prop :=
  Acc (fun c n => Refers refs n c) n

/-- `n` is not broken, and neither is anything it depends on. -/
inductive Sound (refs : ν → List ν) (Broken : ν → Prop) : ν → Prop where
  | intro {n : ν} : ¬ Broken n → (∀ c, Refers refs n c → Sound refs Broken c) →
      Sound refs Broken n

/-! ## Chains that end -/

theorem Grounded.of_reaches (h : Grounded refs n) (hreach : Reaches refs n m) :
    Grounded refs m := by
  induction hreach with
  | refl => exact h
  | tail _ hstep ih => exact ih.inv hstep

theorem grounded_of_rank (rank : ν → Nat) (h : ∀ n c, Refers refs n c → rank c < rank n) (n : ν) :
    Grounded refs n :=
  Subrelation.accessible (fun hc => h _ _ hc) ((InvImage.wf rank Nat.lt_wfRel.wf).apply n)

theorem Grounded.not_onCycle (h : Grounded refs n) : ¬ OnCycle refs n := by
  intro hcycle
  have hself : Relation.TransGen (fun c n => Refers refs n c) n n :=
    Relation.transGen_swap.mpr hcycle
  have hacc : Acc (Relation.TransGen fun c n => Refers refs n c) n := h.transGen
  induction hacc with
  | intro n _ ih => exact ih n hself h hcycle hself

theorem reaches_of_chain {f : Nat → ν} (hf : ∀ i, Refers refs (f i) (f (i + 1))) (i k : Nat) :
    Reaches refs (f i) (f (i + k)) := by
  induction k with
  | zero => exact .refl
  | succ k ih => exact .tail ih (hf (i + k))

/-- A chain of references of which two members are the same contains a cycle. -/
theorem onCycle_of_chain {f : Nat → ν} (hf : ∀ i, Refers refs (f i) (f (i + 1))) {i j : Nat}
    (hlt : i < j) (heq : f i = f j) : OnCycle refs (f i) := by
  have hrest : Reaches refs (f (i + 1)) (f j) := by
    have := reaches_of_chain hf (i + 1) (j - (i + 1))
    rwa [show i + 1 + (j - (i + 1)) = j by omega] at this
  rw [← heq] at hrest
  exact .head' (hf i) hrest

/-- **Chains end exactly when no cycle is reached.** -/
theorem grounded_iff (hfin : { n | refs n ≠ [] }.Finite) :
    Grounded refs n ↔ ∀ m, Reaches refs n m → ¬ OnCycle refs m := by
  constructor
  · intro h m hreach
    exact (h.of_reaches hreach).not_onCycle
  · intro h
    by_contra hno
    obtain ⟨f, hf₀, hf⟩ := not_acc_iff_exists_descending_chain.mp hno
    -- the chain stays among finitely many things, so it repeats one of them
    have hmem : ∀ i, f i ∈ { n | refs n ≠ [] } := fun i => List.ne_nil_of_mem (hf i)
    obtain ⟨i, j, hne, heq⟩ : ∃ i j, i ≠ j ∧ f i = f j := by
      by_contra hinj
      push Not at hinj
      exact Set.infinite_of_injective_forall_mem
        (fun i j heq => not_imp_not.mp (hinj i j) heq) hmem hfin
    have hreach : ∀ i, Reaches refs n (f i) := by
      intro i
      have := reaches_of_chain hf 0 i
      rwa [hf₀, Nat.zero_add] at this
    rcases Nat.lt_or_gt_of_ne hne with hlt | hlt
    · exact h _ (hreach i) (onCycle_of_chain hf hlt heq)
    · exact h _ (hreach j) (onCycle_of_chain hf hlt heq.symm)

/-- **The rule for bounded recursion**: what a call of depth `k + 1` does on `n`
    when calls of depth `k` do it on everything `n` refers to, it does on what is
    grounded at every sufficient depth. -/
theorem Grounded.eventually (P : ν → Nat → Prop)
    (hstep : ∀ n k, (∀ c, Refers refs n c → P c k) → P n (k + 1)) (h : Grounded refs n) :
    ∃ bound, ∀ k ≥ bound, P n k := by
  induction h with
  | intro n _ ih =>
    -- one bound for everything `n` refers to
    obtain ⟨bound, hbound⟩ : ∃ bound, ∀ c, Refers refs n c → ∀ k ≥ bound, P c k := by
      choose! bound hbound using ih
      refine ⟨((refs n).map bound).sum, fun c hc k hk => hbound c hc k (le_trans ?_ hk)⟩
      exact List.single_le_sum (by simp) _ (List.mem_map_of_mem hc)
    refine ⟨bound + 1, fun k hk => ?_⟩
    obtain ⟨k, rfl⟩ : ∃ k', k = k' + 1 := ⟨k - 1, by omega⟩
    exact hstep n k fun c hc => hbound c hc k (by omega)

/-! ## What can be built -/

section
variable (h : Sound refs Broken n)
include h

theorem Sound.not_broken : ¬ Broken n := by
  cases h with
  | intro hbroken _ => exact hbroken

theorem Sound.of_refers (hstep : Refers refs n c) : Sound refs Broken c := by
  cases h with
  | intro _ hall => exact hall c hstep

theorem Sound.of_reaches (hreach : Reaches refs n m) : Sound refs Broken m := by
  induction hreach with
  | refl => exact h
  | tail _ hstep ih => exact ih.of_refers hstep

theorem Sound.grounded : Grounded refs n := by
  induction h with
  | intro _ _ ih => exact .intro _ ih

theorem Sound.not_onCycle : ¬ OnCycle refs n := h.grounded.not_onCycle

end

theorem sound_iff_grounded :
    Sound refs Broken n ↔ Grounded refs n ∧ ∀ m, Reaches refs n m → ¬ Broken m := by
  constructor
  · intro h
    exact ⟨h.grounded, fun m hreach => (h.of_reaches hreach).not_broken⟩
  · intro ⟨hground, hall⟩
    induction hground with
    | intro n _ ih =>
      refine .intro (hall n .refl) fun c hc => ?_
      exact ih c hc fun m hreach => hall m (.head hc hreach)

/-- **What can be built**: nothing broken and no cycle is reached. -/
theorem sound_iff (hfin : { n | refs n ≠ [] }.Finite) :
    Sound refs Broken n ↔ ∀ m, Reaches refs n m → ¬ Broken m ∧ ¬ OnCycle refs m := by
  rw [sound_iff_grounded, grounded_iff hfin]
  constructor
  · intro ⟨hcycle, hbroken⟩ m hreach
    exact ⟨hbroken m hreach, hcycle m hreach⟩
  · intro h
    exact ⟨fun m hreach => (h m hreach).2, fun m hreach => (h m hreach).1⟩

end Reference
