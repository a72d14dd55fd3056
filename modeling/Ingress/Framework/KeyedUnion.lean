import Mathlib.Data.List.Perm.Basic

/-! # Unions by Key

    Lists are joined one after the other; an element whose key is already there is left out.
    The elements of a key are then those of the first list that has the key
    (`ofKey_unionAll_of_ne`), and the order of the lists does not matter when the lists that
    share a key have the same elements of it (`Coherent`, `unionAll_perm`). -/

open List

namespace KeyedUnion

variable {α κ : Type} [DecidableEq κ] (key : α → κ)

/-- The elements of the second list whose key is not in the first are appended to it. -/
def union (xs ys : List α) : List α :=
  xs ++ ys.filter fun y => key y ∉ xs.map key

/-- The union of a list with others, one after the other. -/
def unionAll (xs : List α) (yss : List (List α)) : List α :=
  yss.foldl (union key) xs

/-- The elements of a key. -/
def ofKey (u : κ) (xs : List α) : List α :=
  xs.filter fun x => key x = u

variable {key} {u : κ} {xs ys : List α} {xss yss : List (List α)}

theorem ofKey_eq_nil_iff : ofKey key u xs = [] ↔ u ∉ xs.map key := by
  simp [ofKey, filter_eq_nil_iff]

theorem unionAll_nil (h : ∀ ys ∈ yss, ys = []) : unionAll key [] yss = [] := by
  induction yss with
  | nil => rfl
  | cons ys yss ih =>
    have hhead : union key [] ys = [] := by rw [h ys (.head _)]; rfl
    show unionAll key (union key [] ys) yss = []
    rw [hhead]
    exact ih fun zs hzs => h zs (.tail _ hzs)

/-- The first list has precedence. -/
theorem ofKey_union (u : κ) (xs ys : List α) :
    ofKey key u (union key xs ys) = if ofKey key u xs = [] then ofKey key u ys else ofKey key u xs := by
  have hfilter : ofKey key u (ys.filter fun y => key y ∉ xs.map key) =
      if u ∈ xs.map key then [] else ofKey key u ys := by
    unfold ofKey
    rw [filter_filter]
    split
    · next hu =>
      rw [filter_eq_nil_iff]
      intro y _
      simp only [Bool.and_eq_true, decide_eq_true_eq, not_and, not_not]
      intro hy
      rw [hy]
      exact hu
    · next hu =>
      refine filter_congr fun y _ => ?_
      by_cases hy : key y = u
      · simp only [hy, hu, not_false_eq_true, decide_true, Bool.and_self]
      · simp only [hy, decide_false, Bool.false_and]
  have happend : ofKey key u (union key xs ys) =
      ofKey key u xs ++ ofKey key u (ys.filter fun y => key y ∉ xs.map key) :=
    filter_append ..
  rw [happend, hfilter]
  by_cases hu : u ∈ xs.map key
  · rw [if_pos hu, append_nil, if_neg fun h => ofKey_eq_nil_iff.mp h hu]
  · rw [if_neg hu, ofKey_eq_nil_iff.mpr hu, if_pos rfl, nil_append]

theorem ofKey_unionAll_of_ne (h : ofKey key u xs ≠ []) (yss : List (List α)) :
    ofKey key u (unionAll key xs yss) = ofKey key u xs := by
  induction yss generalizing xs with
  | nil => rfl
  | cons ys yss ih =>
    have hhead : ofKey key u (union key xs ys) = ofKey key u xs := by rw [ofKey_union, if_neg h]
    show ofKey key u (unionAll key (union key xs ys) yss) = _
    rw [ih (by rwa [hhead]), hhead]

/-- The elements of a key are those of a list that has it. -/
theorem ofKey_unionAll (u : κ) (xs : List α) (yss : List (List α)) :
    (ofKey key u (unionAll key xs yss) = [] ∧ ∀ zs ∈ xs :: yss, ofKey key u zs = []) ∨
      ∃ zs ∈ xs :: yss, ofKey key u zs ≠ [] ∧ ofKey key u (unionAll key xs yss) = ofKey key u zs := by
  induction yss generalizing xs with
  | nil =>
    by_cases h : ofKey key u xs = []
    · refine .inl ⟨h, fun zs hzs => ?_⟩
      rw [mem_singleton.mp hzs]
      exact h
    · exact .inr ⟨xs, .head _, h, rfl⟩
  | cons ys yss ih =>
    by_cases h : ofKey key u xs = []
    · have hhead : ofKey key u (union key xs ys) = ofKey key u ys := by rw [ofKey_union, if_pos h]
      rcases ih (union key xs ys) with ⟨hnil, hall⟩ | ⟨zs, hzs, hne, heq⟩
      · refine .inl ⟨hnil, fun zs hzs => ?_⟩
        rcases mem_cons.mp hzs with rfl | hzs
        · exact h
        rcases mem_cons.mp hzs with rfl | hzs
        · rw [← hhead]
          exact hall _ (.head _)
        · exact hall _ (.tail _ hzs)
      · rcases mem_cons.mp hzs with rfl | hzs
        · rw [hhead] at hne heq
          exact .inr ⟨ys, .tail _ (.head _), hne, heq⟩
        · exact .inr ⟨zs, .tail _ (.tail _ hzs), hne, heq⟩
    · exact .inr ⟨xs, .head _, h, ofKey_unionAll_of_ne h _⟩

/-- Lists with the same elements of every key have the same elements. -/
theorem perm_of_ofKey [DecidableEq α] (h : ∀ u, (ofKey key u xs).Perm (ofKey key u ys)) : xs.Perm ys := by
  rw [perm_iff_count]
  intro a
  have hcount : ∀ zs, (ofKey key (key a) zs).count a = zs.count a :=
    fun zs => count_filter (decide_eq_true rfl)
  rw [← hcount xs, ← hcount ys]
  exact (h (key a)).count_eq a

/-- The lists that share a key have the same elements of it. -/
def Coherent (key : α → κ) (xss : List (List α)) : Prop :=
  ∀ xs ∈ xss, ∀ ys ∈ xss, ∀ u, ofKey key u xs ≠ [] → ofKey key u ys ≠ [] →
    (ofKey key u xs).Perm (ofKey key u ys)

/-- **Coherent lists can be joined in any order.** -/
theorem unionAll_perm [DecidableEq α] (h : Coherent key (xs :: xss)) (hperm : (ys :: yss).Perm (xs :: xss)) :
    (unionAll key ys yss).Perm (unionAll key xs xss) := by
  refine @perm_of_ofKey α κ _ key _ _ _ fun u => ?_
  rcases ofKey_unionAll u ys yss with ⟨hnil, hall⟩ | ⟨zs, hzs, hne, heq⟩
  · rcases ofKey_unionAll u xs xss with ⟨hnil', -⟩ | ⟨zs', hzs', hne', -⟩
    · rw [hnil, hnil']
    · exact absurd (hall zs' (hperm.mem_iff.mpr hzs')) hne'
  · rcases ofKey_unionAll u xs xss with ⟨-, hall'⟩ | ⟨zs', hzs', hne', heq'⟩
    · exact absurd (hall' zs (hperm.mem_iff.mp hzs)) hne
    · rw [heq, heq']
      exact h zs (hperm.mem_iff.mp hzs) zs' hzs' u hne hne'

end KeyedUnion
