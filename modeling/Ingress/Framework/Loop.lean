import Mathlib.Data.Nat.Find

/-! # Unbounded Loops

    A loop without a bound (`for { ... }`) as a body that, from a loop state,
    either goes round again or leaves with a result.  Running the body needs a
    fuel argument; the two relations that matter do not mention it:

    * `Returns body s r`: the loop started in `s` leaves with `r`.
    * `Diverges body s`: the loop started in `s` never leaves.

    The rules are the usual ones: a decreasing measure gives termination, an
    invariant that always goes round again gives divergence, and an invariant
    gives a postcondition of whatever is returned. -/

open Nat

namespace Loop

variable {σ : Type u} {ρ : Type v}

/-! ## Running a loop -/

/-- What one turn of the body does. -/
inductive Turn (σ : Type u) (ρ : Type v) where
  /-- Go round again from a new loop state. -/
  | again (s : σ)
  /-- Leave the loop with a result. -/
  | leave (r : ρ)

/-- Run the body for at most `fuel` turns; `none` when the fuel is used up. -/
def iterate (body : σ → Turn σ ρ) : Nat → σ → Option ρ
  | 0, _ => none
  | fuel + 1, s =>
    match body s with
    | .again s' => iterate body fuel s'
    | .leave r => some r

/-- The loop started in `s` leaves with `r`. -/
def Returns (body : σ → Turn σ ρ) (s : σ) (r : ρ) : Prop :=
  ∃ fuel, iterate body fuel s = some r

/-- The loop started in `s` never leaves. -/
def Diverges (body : σ → Turn σ ρ) (s : σ) : Prop :=
  ∀ fuel, iterate body fuel s = none

variable {body : σ → Turn σ ρ}

theorem iterate_again {s s' : σ} (h : body s = .again s') (fuel : Nat) :
    iterate body (fuel + 1) s = iterate body fuel s' := by
  simp [iterate, h]

variable {s : σ} {r : ρ}

theorem iterate_leave (h : body s = .leave r) (fuel : Nat) :
    iterate body (fuel + 1) s = some r := by
  simp [iterate, h]

/-! ## Returning -/

theorem returns_of_leave (h : body s = .leave r) : Returns body s r := ⟨1, iterate_leave h 0⟩

theorem returns_of_again {s s' : σ} (h : body s = .again s')
    (hr : Returns body s' r) : Returns body s r := by
  obtain ⟨fuel, hfuel⟩ := hr
  exact ⟨fuel + 1, by rw [iterate_again h]; exact hfuel⟩

/-- More fuel does not change a result. -/
theorem iterate_mono {fuel fuel' : Nat} (hle : fuel ≤ fuel')
    (h : iterate body fuel s = some r) : iterate body fuel' s = some r := by
  induction fuel generalizing s fuel' with
  | zero => simp [iterate] at h
  | succ fuel ih =>
    obtain ⟨k, rfl⟩ : ∃ k, fuel' = k + 1 := ⟨fuel' - 1, by omega⟩
    cases hb : body s with
    | again s' =>
      rw [iterate_again hb] at h ⊢
      exact ih (by omega) h
    | leave r' =>
      rw [iterate_leave hb] at h ⊢
      exact h

theorem Returns.unique {r r' : ρ} (h : Returns body s r) (h' : Returns body s r') : r = r' := by
  obtain ⟨fuel, hfuel⟩ := h
  obtain ⟨fuel', hfuel'⟩ := h'
  have h₁ := iterate_mono (le_max_left fuel fuel') hfuel
  have h₂ := iterate_mono (le_max_right fuel fuel') hfuel'
  rw [h₁] at h₂
  exact Option.some.inj h₂

theorem Diverges.not_returns (h : Diverges body s) (r : ρ) : ¬ Returns body s r := by
  rintro ⟨fuel, hfuel⟩
  rw [h fuel] at hfuel
  cases hfuel

/-- Only the first turn sees where the loop starts. -/
theorem Returns.congr {s s' : σ} (hturn : body s = body s')
    (h : Returns body s r) : Returns body s' r := by
  obtain ⟨fuel, hfuel⟩ := h
  cases fuel with
  | zero => cases hfuel
  | succ fuel => exact ⟨fuel + 1, by simpa [iterate, hturn] using hfuel⟩

theorem Diverges.congr {s s' : σ} (hturn : body s = body s')
    (h : Diverges body s) : Diverges body s' := by
  intro fuel
  cases fuel with
  | zero => rfl
  | succ fuel => simpa [iterate, hturn] using h (fuel + 1)

/-! ## Proof rules -/

/-- **Termination**: every turn from a state of the invariant leaves, or keeps
    the invariant and decreases the measure. -/
theorem returns_of_measure (inv : σ → Prop) (μ : σ → Nat)
    (hstep : ∀ s, inv s → (∃ r, body s = .leave r) ∨
      ∃ s', body s = .again s' ∧ inv s' ∧ μ s' < μ s)
    (hs : inv s) : ∃ r, Returns body s r := by
  -- induction on a bound of the measure, so that the state can vary
  suffices h : ∀ bound s, inv s → μ s ≤ bound → ∃ r, Returns body s r from
    h (μ s) s hs le_rfl
  intro bound
  induction bound with
  | zero =>
    intro s hs hle
    rcases hstep s hs with ⟨r, hr⟩ | ⟨s', _, _, hlt⟩
    · exact ⟨r, returns_of_leave hr⟩
    · omega
  | succ bound ih =>
    intro s hs hle
    rcases hstep s hs with ⟨r, hr⟩ | ⟨s', hs', hinv, hlt⟩
    · exact ⟨r, returns_of_leave hr⟩
    · obtain ⟨r, hr⟩ := ih s' hinv (by omega)
      exact ⟨r, returns_of_again hs' hr⟩

/-- **Divergence**: every turn from a state of the invariant goes round again
    and keeps the invariant. -/
theorem diverges_of_invariant (inv : σ → Prop)
    (hstep : ∀ s, inv s → ∃ s', body s = .again s' ∧ inv s') (hs : inv s) : Diverges body s := by
  intro fuel
  induction fuel generalizing s with
  | zero => rfl
  | succ fuel ih =>
    obtain ⟨s', hs', hinv⟩ := hstep s hs
    rw [iterate_again hs']
    exact ih hinv

/-- **Postcondition**: an invariant kept by every turn that goes round again
    gives `post` of the result when every leaving turn does. -/
theorem Returns.post (inv : σ → Prop) (post : ρ → Prop)
    (hagain : ∀ s s', inv s → body s = .again s' → inv s')
    (hleave : ∀ s r, inv s → body s = .leave r → post r)
    (hs : inv s) (h : Returns body s r) : post r := by
  obtain ⟨fuel, hfuel⟩ := h
  induction fuel generalizing s with
  | zero => simp [iterate] at hfuel
  | succ fuel ih =>
    cases hb : body s with
    | again s' =>
      rw [iterate_again hb] at hfuel
      exact ih (hagain s s' hs hb) hfuel
    | leave r' =>
      rw [iterate_leave hb] at hfuel
      cases hfuel
      exact hleave s r hs hb

/-! ## Loops with a known sequence of states

    When the state after `t` turns is known in advance, the loop returns at the
    first turn that stops, and diverges if none does. -/

section Sequence

variable (st : Nat → σ) (out : Nat → ρ) (stop : Nat → Prop) [DecidablePred stop]
  (hbody : ∀ t, body (st t) = if stop t then .leave (out t) else .again (st (t + 1)))
include hbody

theorem returns_of_sequence (hstop : ∃ t, stop t) : ∃ t, stop t ∧ Returns body (st 0) (out t) := by
  -- from the first turn that stops, back to the start
  have hback : ∀ t, (∀ u, u < t → ¬ stop u) → ∀ r, Returns body (st t) r →
      Returns body (st 0) r := by
    intro t
    induction t with
    | zero => intro _ r hr; exact hr
    | succ t ih =>
      intro hbefore r hr
      apply ih (fun u hu => hbefore u (by omega))
      have hagain := hbody t
      rw [if_neg (hbefore t (by omega))] at hagain
      exact returns_of_again hagain hr
  refine ⟨Nat.find hstop, Nat.find_spec hstop, ?_⟩
  apply hback (Nat.find hstop) (fun u hu => Nat.find_min hstop hu)
  have hleave := hbody (.find hstop)
  rw [if_pos (Nat.find_spec hstop)] at hleave
  exact returns_of_leave hleave

theorem diverges_of_sequence (hnever : ∀ t, ¬ stop t) : Diverges body (st 0) := by
  apply diverges_of_invariant (fun s => ∃ t, s = st t) _ ⟨0, rfl⟩
  rintro s ⟨t, rfl⟩
  have hagain := hbody t
  rw [if_neg (hnever t)] at hagain
  exact ⟨st (t + 1), hagain, t + 1, rfl⟩

end Sequence

end Loop
