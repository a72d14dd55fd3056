import Mathlib.Data.List.Basic

/-! # Since

    What an element of a sequence has set up, and no later one has undone.  Whether this is so is
    a fact about places in the sequence; a flag that is kept along it follows `since_concat`. -/

open List

namespace Past

variable {α : Type u} {S S' : List α → α → Prop} {C : α → Prop} {l : List α} {x : α}

/-- Some element sets it up, given those before it, and none behind undoes it. -/
def Since (S : List α → α → Prop) (C : α → Prop) (l : List α) : Prop :=
  ∃ pre x post, l = pre ++ x :: post ∧ S pre x ∧ ∀ y ∈ post, ¬ C y

theorem not_since_nil : ¬ Since S C [] := by
  rintro ⟨pre, x, post, h, -⟩
  simp at h

/-- One more element. -/
theorem since_concat : Since S C (l ++ [x]) ↔ S l x ∨ Since S C l ∧ ¬ C x := by
  constructor
  · rintro ⟨pre, y, post, heq, hset, hpost⟩
    obtain rfl | ⟨post, last, rfl⟩ := post.eq_nil_or_concat'
    · obtain ⟨rfl, rfl⟩ := append_singleton_inj.mp heq
      exact .inl hset
    · obtain ⟨rfl, rfl⟩ := append_singleton_inj.mp
        (heq.trans (append_assoc pre (y :: post) [last]).symm)
      exact .inr ⟨⟨pre, y, post, rfl, hset, fun z hz => hpost z (mem_append_left _ hz)⟩,
        hpost _ (mem_append_right _ (.head _))⟩
  · rintro (hset | ⟨⟨pre, y, post, rfl, hset, hpost⟩, hlast⟩)
    · exact ⟨l, x, [], rfl, hset, nofun⟩
    · refine ⟨pre, y, post ++ [x], by simp, hset, fun z hz => ?_⟩
      rcases mem_append.mp hz with hz | hz
      · exact hpost z hz
      · exact mem_singleton.mp hz ▸ hlast

theorem since_congr (h : ∀ pre x post, l = pre ++ x :: post → (S pre x ↔ S' pre x)) :
    Since S C l ↔ Since S' C l := by
  constructor
  · rintro ⟨pre, x, post, heq, hset, hpost⟩
    exact ⟨pre, x, post, heq, (h pre x post heq).mp hset, hpost⟩
  · rintro ⟨pre, x, post, heq, hset, hpost⟩
    exact ⟨pre, x, post, heq, (h pre x post heq).mpr hset, hpost⟩

end Past
