import Mathlib.Tactic.Ring
import Mathlib.Tactic.Linarith

/-! # Counting Down and Starting Over

    A level goes down by a fixed step and starts over from the top when it is
    no longer positive.  With a negative step it goes up, and it starts over
    when it reaches the limit of the machine integers.

    `lowest` is the least level after the current one, in closed form:
    `exists_level_le_iff` says that some later level is at most `w` exactly
    when `lowest` is. -/

open Int Function

namespace Countdown

/-- The level after `c`. -/
def next (limit top step c : Int) : Int :=
  if c - step ≤ 0 ∨ limit ≤ c - step then top else c - step

/-- The least of the levels after `c`. -/
def lowest (limit top step c : Int) : Int :=
  if 0 < step then
    if step < c then min ((c - 1) % step + 1) ((top - 1) % step + 1)
    else (top - 1) % step + 1
  else if step = 0 then
    if 0 < c then c else top
  else if c - step < limit then min (c - step) top
  else top

variable {limit top step : Int}

theorem next_pos (htop : 0 < top) (c : Int) : 0 < next limit top step c := by
  unfold next; split <;> omega

theorem iterate_next_pos (htop : 0 < top) (c : Int) (k : Nat) :
    0 < (next limit top step)^[k + 1] c := by
  rw [iterate_succ_apply']
  exact next_pos htop _

/-! ## No level is below the lowest -/

/-- A positive level that differs from `a` by a number of steps is at least the
    remainder of `a`. -/
theorem remainder_le {a v : Int} {m : Nat} (hstep : 0 < step) (hv : 0 < v)
    (h : v = a - m * step) : (a - 1) % step + 1 ≤ v := by
  -- `a` and `v` leave the same remainder, and `v` is not below its own
  have hrem : (a - 1) % step = (v - 1) % step := by
    rw [h, show a - m * step - 1 = a - 1 - step * m by ring, sub_mul_emod_self_left]
  have hdiv := emod_add_mul_ediv (v - 1) step
  have hnonneg : 0 ≤ step * ((v - 1) / step) :=
    mul_nonneg hstep.le (ediv_nonneg (by omega) hstep.le)
  omega

/-- Counting down, every later level is a number of steps below `c` or the top. -/
theorem iterate_next_of_pos (limit top step c : Int) (k : Nat) :
    (∃ m : Nat, (next limit top step)^[k + 1] c = top - m * step) ∨
      ∃ m : Nat, (next limit top step)^[k + 1] c = c - (m + 1 : Nat) * step := by
  induction k with
  | zero =>
    show (∃ m : Nat, next limit top step c = _) ∨ ∃ m : Nat, next limit top step c = _
    unfold next
    split
    · exact .inl ⟨0, by simp⟩
    · exact .inr ⟨0, by simp⟩
  | succ k ih =>
    rw [iterate_succ_apply']
    generalize (next limit top step)^[k + 1] c = v at ih
    unfold next
    split
    · exact .inl ⟨0, by simp⟩
    · rcases ih with ⟨m, rfl⟩ | ⟨m, rfl⟩
      · exact .inl ⟨m + 1, by push_cast; ring⟩
      · exact .inr ⟨m + 1, by push_cast; ring⟩

theorem lowest_le_of_pos (hstep : 0 < step) (htop : 0 < top) (c : Int) (k : Nat) :
    lowest limit top step c ≤ (next limit top step)^[k + 1] c := by
  have hpos : 0 < (next limit top step)^[k + 1] c := iterate_next_pos htop c k
  unfold lowest
  rw [if_pos hstep]
  rcases iterate_next_of_pos limit top step c k with ⟨m, hm⟩ | ⟨m, hm⟩
  · have hle := remainder_le hstep hpos hm
    split
    · exact (min_le_right _ _).trans hle
    · exact hle
  · -- a level below `c` exists only when `c` is above one step
    have hle := remainder_le hstep hpos hm
    have hprod : step ≤ ((m + 1 : Nat) : Int) * step := by
      push_cast
      have : 0 ≤ (m : Int) * step := mul_nonneg (by omega) hstep.le
      linarith
    rw [if_pos (by omega)]
    exact (min_le_left _ _).trans hle

variable {c : Int}

theorem lowest_le_of_zero (hc : c < limit) (htop : 0 < top) (htop' : top < limit)
    (k : Nat) : lowest limit top 0 c ≤ (next limit top 0)^[k + 1] c := by
  -- a positive level stays for ever
  have hfix : ∀ a, 0 < a → a < limit → next limit top 0 a = a := by
    intro a ha ha'
    unfold next
    omega
  have hiter : ∀ a, 0 < a → a < limit → ∀ k, (next limit top 0)^[k] a = a := by
    intro a ha ha' k
    exact iterate_fixed (hfix a ha ha') k
  unfold lowest
  rw [if_neg (by omega), if_pos rfl]
  split
  · next hpos => rw [hiter c hpos hc]
  · next hpos =>
    have hfirst : next limit top 0 c = top := by
      unfold next
      rw [if_pos (by omega)]
    rw [iterate_succ_apply, hfirst, hiter top htop htop']

theorem lowest_le_of_neg (hstep : step < 0) (c : Int) (k : Nat) :
    lowest limit top step c ≤ (next limit top step)^[k + 1] c := by
  -- going up, the least levels are the first one and the top
  have hlow : lowest limit top step c ≤ top ∧
      (c - step < limit → lowest limit top step c ≤ c - step) := by
    unfold lowest
    split <;> omega
  induction k with
  | zero =>
    show lowest limit top step c ≤ next limit top step c
    generalize lowest limit top step c = low at hlow
    unfold next
    split <;> omega
  | succ k ih =>
    rw [iterate_succ_apply']
    generalize (next limit top step)^[k + 1] c = v at ih
    generalize lowest limit top step c = low at hlow ih
    unfold next
    split <;> omega

/-! ## The lowest level is reached -/

/-- With a step that is not zero the level starts over sooner or later. -/
theorem exists_iterate_eq_top (top : Int) (hstep : step ≠ 0) (hc : c < limit) :
    ∃ k, (next limit top step)^[k + 1] c = top := by
  -- the distance to the end the level moves to
  suffices h : ∀ (n : Nat) (c : Int), c < limit →
      (if 0 < step then c else limit - c) ≤ n → ∃ k, (next limit top step)^[k + 1] c = top from
    h (if 0 < step then c else limit - c).toNat c hc (self_le_toNat _)
  intro n
  induction n with
  | zero =>
    intro c hc hle
    refine ⟨0, ?_⟩
    show next limit top step c = top
    unfold next
    split at hle
    · rw [if_pos (by omega)]
    · omega
  | succ n ih =>
    intro c hc hle
    by_cases hover : c - step ≤ 0 ∨ limit ≤ c - step
    · refine ⟨0, ?_⟩
      show next limit top step c = top
      unfold next
      rw [if_pos hover]
    · have hnext : next limit top step c = c - step := by
        unfold next
        rw [if_neg hover]
      obtain ⟨k, hk⟩ := ih (c - step) (by omega) (by
        split at hle <;> (next h => simp only [h, if_true, if_false]; omega))
      exact ⟨k + 1, by rw [iterate_succ_apply, hnext]; exact hk⟩

/-- Counting down from a positive level, the last positive level is its remainder. -/
theorem iterate_next_remainder (hstep : 0 < step) {a : Int} (ha : 0 < a) (ha' : a < limit) :
    (next limit top step)^[((a - 1) / step).toNat] a = (a - 1) % step + 1 := by
  suffices h : ∀ m : Nat, 0 < a - m * step →
      (next limit top step)^[m] a = a - m * step by
    have hdiv := emod_add_mul_ediv (a - 1) step
    have hq : 0 ≤ (a - 1) / step := ediv_nonneg (by omega) hstep.le
    have hr := emod_nonneg (a - 1) hstep.ne'
    have hcast : (((a - 1) / step).toNat : Int) = (a - 1) / step := toNat_of_nonneg hq
    have hval : a - (((a - 1) / step).toNat : Int) * step = (a - 1) % step + 1 := by
      rw [hcast, mul_comm]
      omega
    rw [h _ (by rw [hval]; omega), hval]
  intro m
  induction m with
  | zero => intro _; simp
  | succ m ih =>
    intro hpos
    push_cast at hpos ⊢
    have hm : 0 ≤ (m : Int) * step := mul_nonneg (by omega) hstep.le
    have hsplit : a - ((m : Int) + 1) * step = a - m * step - step := by ring
    rw [iterate_succ_apply', ih (by omega), hsplit]
    unfold next
    rw [if_neg (by omega)]

theorem exists_iterate_eq_top_remainder (hstep : 0 < step) (hc : c < limit)
    (htop : 0 < top) (htop' : top < limit) :
    ∃ k, (next limit top step)^[k + 1] c = (top - 1) % step + 1 := by
  obtain ⟨k, hk⟩ := exists_iterate_eq_top top hstep.ne' hc
  refine ⟨((top - 1) / step).toNat + k, ?_⟩
  rw [Nat.add_assoc, iterate_add_apply, hk]
  exact iterate_next_remainder hstep htop htop'

theorem exists_iterate_eq_lowest (step : Int) (hc0 : 0 ≤ c) (hc : c < limit)
    (htop : 0 < top) (htop' : top < limit) :
    ∃ k, (next limit top step)^[k + 1] c = lowest limit top step c := by
  rcases lt_trichotomy step 0 with hstep | hstep | hstep
  · -- going up
    have htopReached := exists_iterate_eq_top top hstep.ne hc
    unfold lowest
    rw [if_neg (by omega), if_neg (by omega)]
    split
    · next hlt =>
      rcases le_total (c - step) top with hle | hle
      · rw [min_eq_left hle]
        refine ⟨0, ?_⟩
        show next limit top step c = c - step
        unfold next
        rw [if_neg (by omega)]
      · rw [min_eq_right hle]
        exact htopReached
    · exact htopReached
  · subst hstep
    refine ⟨0, ?_⟩
    show next limit top 0 c = lowest limit top 0 c
    unfold lowest
    unfold next
    split <;> split <;> omega
  · -- counting down, from `c` first and then from the top
    have htopReached := exists_iterate_eq_top_remainder hstep hc htop htop'
    unfold lowest
    rw [if_pos hstep]
    split
    · next hlt =>
      rcases le_total ((c - 1) % step + 1) ((top - 1) % step + 1) with hle | hle
      · rw [min_eq_left hle]
        have hq : 1 ≤ (c - 1) / step := Int.le_ediv_of_mul_le hstep (by omega)
        refine ⟨((c - 1) / step).toNat - 1, ?_⟩
        rw [Nat.sub_add_cancel (by omega)]
        exact iterate_next_remainder hstep (by omega) hc
      · rw [min_eq_right hle]
        exact htopReached
    · exact htopReached

/-- **The lowest level**: some later level is at most `w` exactly when the
    lowest is. -/
theorem exists_level_le_iff (step : Int) (hc0 : 0 ≤ c) (hc : c < limit)
    (htop : 0 < top) (htop' : top < limit) (w : Int) :
    (∃ k, (next limit top step)^[k + 1] c ≤ w) ↔ lowest limit top step c ≤ w := by
  constructor
  · rintro ⟨k, hk⟩
    refine le_trans ?_ hk
    rcases lt_trichotomy step 0 with hstep | hstep | hstep
    · exact lowest_le_of_neg hstep c k
    · subst hstep
      exact lowest_le_of_zero hc htop htop' k
    · exact lowest_le_of_pos hstep htop c k
  · intro hw
    obtain ⟨k, hk⟩ := exists_iterate_eq_lowest step hc0 hc htop htop'
    exact ⟨k, by rw [hk]; exact hw⟩

/-- Counting down, the lowest level is at most one step. -/
theorem lowest_le_step (hstep : 0 < step) (c : Int) : lowest limit top step c ≤ step := by
  have hrem := emod_lt_of_pos (top - 1) hstep
  unfold lowest
  rw [if_pos hstep]
  split
  · exact (min_le_right _ _).trans (by omega)
  · omega

end Countdown
