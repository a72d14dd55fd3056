import Mathlib.Tactic

/-! # Programs That Settle

    A program changes a state and returns a value or an error; `none` stands
    for a run that has not come to an end within its fuel.

    `Settles inv x good post` is total correctness with an exact outcome: from
    every state of `inv` the program ends, in a state of `inv`, with a value of
    `post` when `good` holds and with an error when it does not.  There is one
    rule for each way of putting programs together.

    `Le x y` says that `y` does what `x` does wherever `x` comes to an end: more
    fuel gives no other outcome. -/

open Or

namespace Outcome

/-- Programs over the state `σ` with errors `ε`. -/
abbrev Prog (σ ε : Type) := ExceptT ε (StateT σ Option)

variable {σ ε α β γ : Type}

/-- A run that does not end. -/
def stuck : Prog σ ε α := fun _ => none

/-- Run `x`; on an error, change the state and fail with that error. -/
def onError (x : Prog σ ε α) (change : ε → σ → σ) : Prog σ ε α := fun s =>
  match x s with
  | none => none
  | some (.ok a, s') => some (.ok a, s')
  | some (.error e, s') => some (.error e, change e s')

/-- Run `x`; on an error, fail with another one. -/
def mapError (x : Prog σ ε α) (wrap : ε → ε) : Prog σ ε α := fun s =>
  match x s with
  | none => none
  | some (.ok a, s') => some (.ok a, s')
  | some (.error e, s') => some (.error (wrap e), s')

/-- A value or an error. -/
def ofResult : Except ε α → Prog σ ε α
  | .ok a => pure a
  | .error e => throw e

/-- Run a program for every member of a list, up to the first error. -/
def forEach (f : α → Prog σ ε β) : List α → Prog σ ε (List β)
  | [] => pure []
  | a :: as => do
    let b ← f a
    let bs ← forEach f as
    pure (b :: bs)

/-! ## Results -/

variable {x : Except ε α} {b : β}

theorem ok_of_bind {f : α → Except ε β} (h : x >>= f = .ok b) : ∃ a, x = .ok a ∧ f a = .ok b := by
  cases x with
  | error e => cases h
  | ok a => exact ⟨a, rfl, h⟩

theorem ok_of_exceptMap {f : α → β} (h : x.map f = .ok b) : ∃ a, x = .ok a ∧ f a = b := by
  cases x with
  | error e => cases h
  | ok a => exact ⟨a, rfl, Except.ok.inj h⟩

variable {as : List α} {s : σ}

/-- Two loops that stay related. -/
theorem foldlM_sim {σ' : Type} {R : σ → σ' → Prop} {f : σ → α → Option σ} {g : σ' → α → Option σ'}
    {s₁ : σ} {t : σ'} (h : R s t) (hrun : as.foldlM f s = some s₁)
    (hone : ∀ a ∈ as, ∀ s t s₁, R s t → f s a = some s₁ → ∃ t₁, g t a = some t₁ ∧ R s₁ t₁) :
    ∃ t₁, as.foldlM g t = some t₁ ∧ R s₁ t₁ := by
  induction as generalizing s t with
  | nil =>
    obtain rfl : s = s₁ := Option.some.inj hrun
    exact ⟨t, rfl, h⟩
  | cons a as ih =>
    rw [List.foldlM_cons] at hrun ⊢
    obtain ⟨s₂, hs₂, hrun⟩ := Option.bind_eq_some_iff.mp hrun
    obtain ⟨t₂, ht₂, h₂⟩ := hone a (.head _) s t s₂ h hs₂
    rw [ht₂]
    exact ih h₂ hrun fun a' ha' => hone a' (List.mem_cons_of_mem a ha')

variable {a : α}

theorem ok_of_exceptMapError {ε' : Type} {wrap : ε → ε'}
    (h : x.mapError wrap = .ok a) : x = .ok a := by
  cases x with
  | error e => cases h
  | ok a' =>
    cases h
    rfl

/-! ## Runs -/

theorem run_bind (x : Prog σ ε α) (f : α → Prog σ ε β) (s : σ) :
    (x >>= f) s = (x s).bind fun (r, s') => ExceptT.bindCont f r s' := by
  rfl

variable {f : α → Prog σ ε β} {x : Prog σ ε α} {s' : σ}

theorem bind_of_ok (h : x s = some (.ok a, s')) : (x >>= f) s = f a s' := by
  rw [run_bind, h]
  rfl

theorem bind_of_error {e : ε}
    (h : x s = some (.error e, s')) : (x >>= f) s = some (.error e, s') := by
  rw [run_bind, h]
  rfl

theorem bind_of_stuck (h : x s = none) : (x >>= f) s = none := by
  rw [run_bind, h]
  rfl

/-- What a program that has returned a value did. -/
theorem exists_ok_of_bind (h : (x >>= f) s = some (.ok b, s')) :
    ∃ a s₁, x s = some (.ok a, s₁) ∧ f a s₁ = some (.ok b, s') := by
  cases hx : x s with
  | none =>
    rw [bind_of_stuck hx] at h
    cases h
  | some r =>
    obtain ⟨_ | a, s₁⟩ := r
    · rw [bind_of_error hx] at h
      cases h
    · rw [bind_of_ok hx] at h
      exact ⟨a, s₁, rfl, h⟩

theorem onError_of_stuck {change : ε → σ → σ} (h : x s = none) : onError x change s = none := by
  simp [onError, h]

theorem forEach_of_stuck (h : f a s = none) : forEach f (a :: as) s = none := bind_of_stuck h

/-! ## Rules -/

/-- Total correctness with an exact outcome. -/
def Settles (inv : σ → Prop) (x : Prog σ ε α) (good : Prop) (post : α → Prop) : Prop :=
  ∀ s, inv s → ∃ r s', x s = some (r, s') ∧ inv s' ∧
    ((∃ a, r = .ok a ∧ good ∧ post a) ∨ (∃ e, r = .error e) ∧ ¬ good)

variable {inv : σ → Prop} {x : Prog σ ε α} {good good' : Prop} {post post' : α → Prop}

theorem settles_pure (h : post a) : Settles inv (pure a : Prog σ ε α) True post := by
  intro s hs
  exact ⟨.ok a, s, rfl, hs, inl ⟨a, rfl, trivial, h⟩⟩

theorem settles_throw {e : ε} : Settles inv (throw e : Prog σ ε α) False post := by
  intro s hs
  exact ⟨.error e, s, rfl, hs, inr ⟨⟨e, rfl⟩, not_false⟩⟩

theorem settles_ofResult {r : Except ε α} (hr : r = .ok a) (h : post a) :
    Settles inv (ofResult r : Prog σ ε α) True post := by
  subst hr
  exact settles_pure h

theorem settles_ofResult_error {r : Except ε α} {e : ε} (hr : r = .error e) :
    Settles inv (ofResult r : Prog σ ε α) False post := by
  subst hr
  exact settles_throw

theorem Settles.congr (h : Settles inv x good post) (hgood : good ↔ good')
    (hpost : ∀ a, post a → post' a) : Settles inv x good' post' := by
  intro s hs
  obtain ⟨r, s', hrun, hs', ⟨a, hr, hg, ha⟩ | ⟨he, hg⟩⟩ := h s hs
  · exact ⟨r, s', hrun, hs', inl ⟨a, hr, hgood.mp hg, hpost a ha⟩⟩
  · exact ⟨r, s', hrun, hs', inr ⟨he, fun hg' => hg (hgood.mpr hg')⟩⟩

theorem Settles.weaken (h : Settles inv x good post) : Settles inv x good fun _ => True :=
  h.congr .rfl fun _ _ => trivial

variable {post₂ : β → Prop}

theorem Settles.bind (hx : Settles inv x good post)
    (hf : ∀ a, good → post a → Settles inv (f a) good' post₂) :
    Settles inv (x >>= f) (good ∧ good') post₂ := by
  intro s hs
  obtain ⟨r, s', hrun, hs', ⟨a, rfl, hg, ha⟩ | ⟨⟨e, rfl⟩, hg⟩⟩ := hx s hs
  · obtain ⟨r₂, s₂, hrun₂, hs₂, ⟨b, hr, hg', hb⟩ | ⟨he, hg'⟩⟩ := hf a hg ha s' hs'
    · exact ⟨r₂, s₂, by rw [bind_of_ok hrun, hrun₂], hs₂, inl ⟨b, hr, ⟨hg, hg'⟩, hb⟩⟩
    · exact ⟨r₂, s₂, by rw [bind_of_ok hrun, hrun₂], hs₂, inr ⟨he, fun h => hg' h.2⟩⟩
  · exact ⟨_, s', bind_of_error hrun, hs', inr ⟨⟨e, rfl⟩, fun h => hg h.1⟩⟩

/-- After a program that cannot fail. -/
theorem Settles.andThen (hx : Settles inv x True post)
    (hf : ∀ a, post a → Settles inv (f a) good post₂) : Settles inv (x >>= f) good post₂ :=
  (hx.bind fun a _ ha => hf a ha).congr (by simp) fun _ h => h

/-- Before a program that cannot fail. -/
theorem Settles.followed (hx : Settles inv x good post)
    (hf : ∀ a, good → post a → Settles inv (f a) True post₂) : Settles inv (x >>= f) good post₂ :=
  (hx.bind hf).congr (by simp) fun _ h => h

/-- After a program that fails. -/
theorem Settles.failed
    (hx : Settles inv x False fun _ => True) : Settles inv (x >>= f) False post₂ := by
  intro s hs
  obtain ⟨r, s', hrun, hs', ⟨_, _, hfalse, _⟩ | ⟨⟨e, rfl⟩, hg⟩⟩ := hx s hs
  · exact hfalse.elim
  · exact ⟨_, s', bind_of_error hrun, hs', inr ⟨⟨e, rfl⟩, hg⟩⟩

/-- Reading the state. -/
theorem settles_get {f : σ → Prog σ ε α} (h : ∀ s, inv s → Settles inv (f s) good post) :
    Settles inv (get >>= f) good post := by
  intro s hs
  have hget : (get : Prog σ ε σ) s = some (.ok s, s) := rfl
  exact h s hs s hs

/-- Changing the state. -/
theorem settles_modify {change : σ → σ} (h : ∀ s, inv s → inv (change s)) :
    Settles inv (modify change : Prog σ ε PUnit) True fun _ => True := by
  intro s hs
  exact ⟨.ok ⟨⟩, change s, rfl, h s hs, inl ⟨⟨⟩, rfl, trivial, trivial⟩⟩

theorem Settles.onError {change : ε → σ → σ} (h : Settles inv x good post)
    (hchange : ¬ good → ∀ e s, inv s → inv (change e s)) :
    Settles inv (onError x change) good post := by
  intro s hs
  obtain ⟨r, s', hrun, hs', ⟨a, rfl, hg, ha⟩ | ⟨⟨e, rfl⟩, hg⟩⟩ := h s hs
  · exact ⟨.ok a, s', by simp [Outcome.onError, hrun], hs', inl ⟨a, rfl, hg, ha⟩⟩
  · exact ⟨.error e, change e s', by simp [Outcome.onError, hrun], hchange hg e s' hs',
      inr ⟨⟨e, rfl⟩, hg⟩⟩

theorem Settles.mapError {wrap : ε → ε} (h : Settles inv x good post) :
    Settles inv (mapError x wrap) good post := by
  intro s hs
  obtain ⟨r, s', hrun, hs', ⟨a, rfl, hg, ha⟩ | ⟨⟨e, rfl⟩, hg⟩⟩ := h s hs
  · exact ⟨.ok a, s', by simp [Outcome.mapError, hrun], hs', inl ⟨a, rfl, hg, ha⟩⟩
  · exact ⟨.error (wrap e), s', by simp [Outcome.mapError, hrun], hs', inr ⟨⟨wrap e, rfl⟩, hg⟩⟩

/-- **The rule for loops**: it comes to the end when every turn does. -/
theorem settles_forEach {good : α → Prop} (h : ∀ a ∈ as, Settles inv (f a) (good a) fun _ => True) :
    Settles inv (forEach f as) (∀ a ∈ as, good a) fun _ => True := by
  induction as with
  | nil => exact (settles_pure trivial).congr (by simp) fun _ h => h
  | cons a as ih =>
    have hrest := ih fun a' ha' => h a' (List.mem_cons_of_mem a ha')
    refine ((h a (.head _)).bind fun b _ _ =>
      hrest.followed fun bs _ _ => settles_pure trivial).congr ?_ fun _ h => h
    exact List.forall_mem_cons.symm

/-! ## More fuel -/

/-- `y` does what `x` does wherever `x` comes to an end. -/
def Le (x y : Prog σ ε α) : Prop :=
  ∀ s out, x s = some out → y s = some out

theorem Le.refl (x : Prog σ ε α) : Le x x := fun _ _ h => h

theorem stuck_le (x : Prog σ ε α) : Le stuck x := by
  intro s out h
  cases h

variable {x y : Prog σ ε α}

theorem Le.bind {f g : α → Prog σ ε β} (hxy : Le x y)
    (hfg : ∀ a, Le (f a) (g a)) : Le (x >>= f) (y >>= g) := by
  intro s out h
  cases hx : x s with
  | none =>
    rw [bind_of_stuck hx] at h
    cases h
  | some r =>
    obtain ⟨_ | a, s'⟩ := r
    · rw [bind_of_error hx] at h
      rw [bind_of_error (hxy s _ hx), h]
    · rw [bind_of_ok hx] at h
      rw [bind_of_ok (hxy s _ hx)]
      exact hfg a s' out h

theorem Le.onError (hxy : Le x y) (change : ε → σ → σ) :
    Le (onError x change) (onError y change) := by
  intro s out h
  cases hx : x s with
  | none =>
    rw [onError_of_stuck hx] at h
    cases h
  | some r =>
    unfold Outcome.onError at h ⊢
    rwa [hxy s r hx, ← hx]

theorem Le.mapError (hxy : Le x y) (wrap : ε → ε) : Le (mapError x wrap) (mapError y wrap) := by
  intro s out h
  cases hx : x s with
  | none => simp [Outcome.mapError, hx] at h
  | some r =>
    unfold Outcome.mapError at h ⊢
    rwa [hxy s r hx, ← hx]

theorem Le.forEach {f g : α → Prog σ ε β} (hfg : ∀ a, Le (f a) (g a)) (as : List α) :
    Le (forEach f as) (forEach g as) := by
  induction as with
  | nil => exact .refl _
  | cons a as ih => exact (hfg a).bind fun b => ih.bind fun bs => .refl _

end Outcome
