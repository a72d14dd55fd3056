import Mathlib.Data.List.Basic

/-! # Readers of a Growing Input

    A reader takes a value from the front of what has arrived so far, or asks for more.
    It decides by what it takes: what arrives behind changes nothing
    (`Reader.read_append`). -/

namespace Incremental

/-- The outcome of a read: more input is needed, the input is refused, or a value was read
    from the first `n` elements. -/
inductive Reading (α : Type u) where
  | more
  | failed
  | done (value : α) (n : ℕ)

/-- A reader that decides by what it takes, which is never nothing. -/
structure Reader (β : Type v) (α : Type u) where
  read : List β → Reading α
  read_pos : ∀ {bs a n}, read bs = .done a n → 0 < n ∧ n ≤ bs.length
  read_append : ∀ {bs a n} (cs : List β), read bs = .done a n → read (bs ++ cs) = .done a n

variable {β : Type v} {α : Type u} (r : Reader β α) {bs : List β} {a : α} {n : ℕ}

/-- What a reader leaves, with more behind it. -/
theorem Reader.drop_append (h : r.read bs = .done a n) (cs : List β) :
    (bs ++ cs).drop n = bs.drop n ++ cs :=
  List.drop_append_of_le_length (r.read_pos h).2

/-- The reader of one word. -/
def Reader.word [BEq β] [LawfulBEq β] (w : List β) (hw : 0 < w.length) (a : α) : Reader β α where
  read bs := if w.isPrefixOf bs then .done a w.length else if bs.isPrefixOf w then .more else .failed
  read_pos := by
    intro bs a' n h
    split at h
    · next hprefix =>
      obtain ⟨-, rfl⟩ := Reading.done.inj h
      exact ⟨hw, (List.isPrefixOf_iff_prefix.mp hprefix).length_le⟩
    · split at h <;> cases h
  read_append := by
    intro bs a' n cs h
    split at h
    · next hprefix =>
      have happend : w.isPrefixOf (bs ++ cs) = true := List.isPrefixOf_iff_prefix.mpr
        ((List.isPrefixOf_iff_prefix.mp hprefix).trans (List.prefix_append bs cs))
      rw [if_pos happend]
      exact h
    · split at h <;> cases h

end Incremental
