import Mathlib.Data.List.Perm.Basic
import Mathlib.Logic.Equiv.Basic
import Mathlib.Order.WithBot

/-! # Binary Heaps over Slices

    The `container/heap` package of the Go standard library: `up` and `down`
    move an element along a branch of the implicit binary tree, `push` appends
    and moves up, `pop` swaps the root with the last element, moves down and
    removes the last element.

    The order is given by a key into a linear order.  The heap property and the
    two intermediate properties are stated on the *profile* of a slice, the
    function from positions to keys with a top element past the end: a swap of
    two positions is then a composition with a transposition, and no side
    condition on bounds is left. -/

open Function List

namespace Heap

variable {α : Type u}

/-! ## The operations -/

/-- Exchange the elements at two positions. -/
def swap (h : List α) (i j : Nat) : List α :=
  match h[i]?, h[j]? with
  | some x, some y => (h.set i y).set j x
  | _, _ => h

variable (less : α → α → Bool)

/-- `Less(i, j)` on positions. -/
def lessAt (h : List α) (i j : Nat) : Bool :=
  match h[i]?, h[j]? with
  | some x, some y => less x y
  | _, _ => false

/-- Move the element at `j` towards the root while it is less than its parent. -/
def up (less : α → α → Bool) (h : List α) (j : Nat) : List α :=
  if (j - 1) / 2 = j then h
  else if lessAt less h j ((j - 1) / 2) then up less (swap h ((j - 1) / 2) j) ((j - 1) / 2)
  else h
termination_by j
decreasing_by omega

/-- The child of `i` that `down` compares with: the left one, unless the right
    one is among the first `n` elements and less. -/
def minChild (h : List α) (i n : Nat) : Nat :=
  if 2 * i + 2 < n ∧ lessAt less h (2 * i + 2) (2 * i + 1) then 2 * i + 2 else 2 * i + 1

/-- Move the element at `i` away from the root, within the first `n` elements,
    while a child is less. -/
def down (less : α → α → Bool) (h : List α) (i n : Nat) : List α :=
  if n ≤ 2 * i + 1 then h
  else if lessAt less h (minChild less h i n) i then
    down less (swap h i (minChild less h i n)) (minChild less h i n) n
  else h
termination_by n - i
decreasing_by
  have : i < minChild less h i n := by unfold minChild; split <;> omega
  omega

def push (h : List α) (x : α) : List α :=
  up less (h ++ [x]) h.length

/-- `heap.Pop`; `none` where the Go code indexes an empty slice. -/
def pop (h : List α) : Option (α × List α) :=
  let moved := down less (swap h 0 (h.length - 1)) 0 (h.length - 1)
  match moved.getLast? with
  | some x => some (x, moved.dropLast)
  | none => none

/-! ## Swapping -/

variable {h : List α} {i : Nat} {j : Nat}

theorem swap_getElem? (hi : i < h.length) (hj : j < h.length)
    (k : Nat) : (swap h i j)[k]? = h[Equiv.swap i j k]? := by
  simp only [swap, List.getElem?_eq_getElem hi, List.getElem?_eq_getElem hj]
  rw [List.getElem?_set, List.getElem?_set, Equiv.swap_apply_def]
  by_cases hkj : k = j
  · subst hkj
    by_cases hki : k = i
    · subst hki; simp [hi]
    · simp [hki, hj, hi]
  · by_cases hki : k = i
    · subst hki; simp [Ne.symm hkj, hi, hj]
    · simp [hkj, hki, Ne.symm hkj, Ne.symm hki]

theorem swap_perm (h : List α) (i j : Nat) : (swap h i j).Perm h := by
  unfold swap
  split
  · next x y hx hy =>
    obtain ⟨hi, rfl⟩ := List.getElem?_eq_some_iff.mp hx
    obtain ⟨hj, rfl⟩ := List.getElem?_eq_some_iff.mp hy
    exact List.set_set_perm hi hj
  · exact .refl h

@[simp] theorem length_swap (h : List α) (i j : Nat) : (swap h i j).length = h.length :=
  (swap_perm h i j).length_eq

/-! ## The operations only permute -/

variable (less : α → α → Bool)

theorem up_perm (h : List α) (j : Nat) : (up less h j).Perm h := by
  induction h, j using up.induct less with
  | case1 h j hroot => rw [up, if_pos hroot]
  | case2 h j hroot hless ih =>
    rw [up, if_neg hroot, if_pos hless]
    exact ih.trans (swap_perm _ _ _)
  | case3 h j hroot hless => rw [up, if_neg hroot, if_neg hless]

theorem down_perm (h : List α) (i n : Nat) : (down less h i n).Perm h := by
  induction h, i using down.induct less n with
  | case1 h i hleaf => rw [down, if_pos hleaf]
  | case2 h i hleaf hless ih =>
    rw [down, if_neg hleaf, if_pos hless]
    exact ih.trans (swap_perm _ _ _)
  | case3 h i hleaf hless => rw [down, if_neg hleaf, if_neg hless]

theorem push_perm (h : List α) (x : α) : (push less h x).Perm (x :: h) :=
  (up_perm less _ _).trans (perm_append_singleton x h)

theorem lt_minChild (h : List α) (i n : Nat) : i < minChild less h i n := by
  unfold minChild; split <;> omega

theorem minChild_lt {n : Nat} (hi : ¬ n ≤ 2 * i + 1) : minChild less h i n < n := by
  unfold minChild; split <;> omega

theorem parent_minChild (h : List α) (i n : Nat) : (minChild less h i n - 1) / 2 = i := by
  unfold minChild; split <;> omega

/-- `down` leaves the elements past the first `n` in place. -/
theorem down_getElem?_of_le (h : List α) (i n k : Nat) (hk : n ≤ k)
    (hn : n ≤ h.length) : (down less h i n)[k]? = h[k]? := by
  induction h, i using down.induct less n with
  | case1 h i hleaf => rw [down, if_pos hleaf]
  | case2 h i hleaf hless ih =>
    have hlt' := minChild_lt less (h := h) hleaf
    rw [down, if_neg hleaf, if_pos hless, ih (by simpa using hn),
      swap_getElem? (by omega) (by omega), Equiv.swap_apply_of_ne_of_ne (by omega) (by omega)]
  | case3 h i hleaf hless => rw [down, if_neg hleaf, if_neg hless]

/-! ## Profiles -/

section Order

variable {β : Type v} [LinearOrder β] (key : α → β) {less : α → α → Bool}

/-- The keys of the first `n` positions, with a top element everywhere else. -/
def profile (n : Nat) (h : List α) (i : Nat) : WithTop β :=
  if i < n then (h[i]?).elim ⊤ (fun x => (key x : WithTop β)) else ⊤

/-- No element is less than its parent. -/
def Ordered (f : Nat → WithTop β) : Prop :=
  ∀ i, 0 < i → f ((i - 1) / 2) ≤ f i

/-- Only the edge from `j` to its parent may be out of order, and moving the
    parent down to `j` is safe for the children of `j`. -/
def UpReady (f : Nat → WithTop β) (j : Nat) : Prop :=
  (∀ i, 0 < i → i ≠ j → f ((i - 1) / 2) ≤ f i) ∧
  ∀ i, 0 < i → 0 < j → (i - 1) / 2 = j → f ((j - 1) / 2) ≤ f i

/-- Only the edges from `j` to its children may be out of order, and moving a
    child up to `j` is safe for the parent of `j`. -/
def DownReady (f : Nat → WithTop β) (j : Nat) : Prop :=
  (∀ i, 0 < i → (i - 1) / 2 ≠ j → f ((i - 1) / 2) ≤ f i) ∧
  ∀ i, 0 < i → 0 < j → (i - 1) / 2 = j → f ((j - 1) / 2) ≤ f i

/-- The heap property of a slice. -/
def IsHeap (h : List α) : Prop :=
  Ordered (profile key h.length h)

theorem UpReady.swap {f : Nat → WithTop β} (hf : UpReady f j)
    (hj : (j - 1) / 2 ≠ j) (hlt : f j < f ((j - 1) / 2)) :
    UpReady (f ∘ Equiv.swap ((j - 1) / 2) j) ((j - 1) / 2) := by
  obtain ⟨hother, hchild⟩ := hf
  refine ⟨?_, ?_⟩
  · intro k hk hkp
    have hkother := hother k hk
    have hkchild := hchild k hk (by omega)
    simp only [comp, Equiv.swap_apply_def]
    by_cases hkj : k = j
    · subst hkj; simpa [hkp] using hlt.le
    · by_cases hpp : (k - 1) / 2 = (j - 1) / 2
      · -- a sibling of `j`: its new parent is the smaller element moved up
        have := hkother hkj
        rw [hpp] at this
        simpa [hpp, hkj, hkp] using hlt.le.trans this
      · by_cases hpj : (k - 1) / 2 = j
        · -- a child of `j`: its new parent is the old parent of `j`
          simpa [hpj, hkj, hkp, Ne.symm hj] using hkchild hpj
        · simpa [hpp, hpj, hkj, hkp] using hkother hkj
  · intro k hk hpos hkp
    have hpp : ((j - 1) / 2 - 1) / 2 ≠ (j - 1) / 2 := by omega
    have hpj : ((j - 1) / 2 - 1) / 2 ≠ j := by omega
    have hparent := hother ((j - 1) / 2) hpos hj
    simp only [comp, Equiv.swap_apply_def]
    by_cases hkj : k = j
    · subst hkj; simpa [hpp, hpj, Ne.symm hj] using hparent
    · have hkp' : k ≠ (j - 1) / 2 := by omega
      have := hother k hk hkj
      rw [hkp] at this
      simpa [hpp, hpj, hkj, hkp'] using hparent.trans this

theorem DownReady.swap {f : Nat → WithTop β} {c : Nat} (hf : DownReady f i)
    (hic : i < c) (hc : (c - 1) / 2 = i) (hlt : f c < f i)
    (hmin : ∀ k, 0 < k → (k - 1) / 2 = i → f c ≤ f k) : DownReady (f ∘ Equiv.swap i c) c := by
  obtain ⟨hother, hchild⟩ := hf
  refine ⟨?_, ?_⟩
  · intro k hk hkc
    simp only [comp, Equiv.swap_apply_def]
    by_cases hkeq : k = c
    · subst hkeq
      have hki : k ≠ i := by omega
      simpa only [hc, hki, if_true, if_false] using hlt.le
    · by_cases hki : k = i
      · subst hki
        have hpk : (k - 1) / 2 ≠ k := by omega
        simpa [hkc, hpk] using hchild c (by omega) hk hc
      · by_cases hpi : (k - 1) / 2 = i
        · -- the other child of `i`
          simpa [hpi, hkeq, hki] using hmin k hk hpi
        · simpa [hpi, hkc, hkeq, hki] using hother k hk hpi
  · intro k hk _ hkc
    have hki : k ≠ i := by omega
    have hkne : k ≠ c := by omega
    have := hother k hk (by omega)
    rw [hkc] at this
    simpa [comp, Equiv.swap_apply_def, hc, hki, hkne] using this

/-! ## Profiles of slices -/

omit [LinearOrder β] in
theorem profile_of_le {n : Nat} (h : List α) (hi : n ≤ i) : profile key n h i = ⊤ := by
  unfold profile
  rw [if_neg (by omega)]

omit [LinearOrder β] in
theorem profile_of_lt {n : Nat} (h : List α) (hi : i < n) :
    profile key n h i = (h[i]?).elim ⊤ (fun x => (key x : WithTop β)) := by
  unfold profile
  rw [if_pos hi]

variable {n : Nat}

omit [LinearOrder β] in
theorem profile_swap (hi : i < n) (hj : j < n) (hn : n ≤ h.length) :
    profile key n (Heap.swap h i j) = profile key n h ∘ Equiv.swap i j := by
  funext k
  have hk : Equiv.swap i j k < n ↔ k < n := by
    rw [Equiv.swap_apply_def]; split_ifs <;> omega
  simp only [profile, comp, hk, swap_getElem? (by omega : i < h.length)
    (by omega : j < h.length)]

variable {key} (hless : ∀ x y, less x y = true ↔ key x < key y)
include hless

theorem lessAt_iff (hi : i < n) (hj : j < n) (hn : n ≤ h.length) :
    lessAt less h i j = true ↔ profile key n h i < profile key n h j := by
  have hi' : i < h.length := by omega
  have hj' : j < h.length := by omega
  simp [lessAt, profile, hi, hj, hi', hj', hless]

theorem profile_minChild_le (hn : n ≤ h.length) (k : Nat) (hk : 0 < k) (hki : (k - 1) / 2 = i) :
    profile key n h (minChild less h i n) ≤ profile key n h k := by
  have hcases : k = 2 * i + 1 ∨ k = 2 * i + 2 := by omega
  by_cases hright : 2 * i + 2 < n
  · have hiff := lessAt_iff hless hright (by omega : 2 * i + 1 < n) hn
    by_cases hl : lessAt less h (2 * i + 2) (2 * i + 1) = true
    · have hmin : minChild less h i n = 2 * i + 2 := by simp [minChild, hright, hl]
      rw [hmin]
      rcases hcases with rfl | rfl
      · exact (hiff.mp hl).le
      · exact le_rfl
    · have hmin : minChild less h i n = 2 * i + 1 := by simp [minChild, hl]
      rw [hmin]
      rcases hcases with rfl | rfl
      · exact le_rfl
      · exact not_lt.mp (fun hlt => hl (hiff.mpr hlt))
  · have hmin : minChild less h i n = 2 * i + 1 := by simp [minChild, hright]
    rw [hmin]
    rcases hcases with rfl | rfl
    · exact le_rfl
    · simp [profile, hright]

theorem up_ordered (hj : j < n) (hn : n ≤ h.length)
    (hready : UpReady (profile key n h) j) : Ordered (profile key n (up less h j)) := by
  induction h, j using up.induct less with
  | case1 h j hroot =>
    rw [up, if_pos hroot]
    intro i hi
    exact hready.1 i hi (by omega)
  | case2 h j hroot hl ih =>
    rw [up, if_neg hroot, if_pos hl]
    have hp : (j - 1) / 2 < n := by omega
    refine ih hp (by simpa using hn) ?_
    rw [profile_swap key hp hj hn]
    exact hready.swap hroot ((lessAt_iff hless hj hp hn).mp hl)
  | case3 h j hroot hl =>
    rw [up, if_neg hroot, if_neg hl]
    intro i hi
    by_cases hij : i = j
    · subst hij
      have hp : (i - 1) / 2 < n := by omega
      exact not_lt.mp (fun hlt => hl ((lessAt_iff hless hj hp hn).mpr hlt))
    · exact hready.1 i hi hij

theorem down_ordered (hi : i < n) (hn : n ≤ h.length)
    (hready : DownReady (profile key n h) i) : Ordered (profile key n (down less h i n)) := by
  induction h, i using down.induct less n with
  | case1 h i hleaf =>
    rw [down, if_pos hleaf]
    intro k hk
    by_cases hki : (k - 1) / 2 = i
    · rw [profile_of_le key h (by omega : n ≤ k)]
      exact le_top
    · exact hready.1 k hk hki
  | case2 h i hleaf hl ih =>
    rw [down, if_neg hleaf, if_pos hl]
    have hc := minChild_lt less (h := h) hleaf
    refine ih hc (by simpa using hn) ?_
    rw [profile_swap key hi hc hn]
    exact hready.swap (lt_minChild less h i n) (parent_minChild less h i n)
      ((lessAt_iff hless hc hi hn).mp hl) (profile_minChild_le hless hn)
  | case3 h i hleaf hl =>
    rw [down, if_neg hleaf, if_neg hl]
    intro k hk
    by_cases hki : (k - 1) / 2 = i
    · have hc := minChild_lt less (h := h) hleaf
      have hle := not_lt.mp (fun hlt => hl ((lessAt_iff hless hc hi hn).mpr hlt))
      rw [hki]
      exact hle.trans (profile_minChild_le hless hn k hk hki)
    · exact hready.1 k hk hki

/-! ## Push and pop -/

omit hless in
theorem isHeap_nil : IsHeap key ([] : List α) := by
  intro i _
  simp [profile]

theorem push_isHeap (hh : IsHeap key h) (x : α) : IsHeap key (push less h x) := by
  have hlen : (push less h x).length = h.length + 1 := by
    rw [(push_perm less h x).length_eq, length_cons]
  unfold IsHeap
  rw [hlen]
  refine up_ordered hless (by omega) (by simp) ⟨?_, ?_⟩
  · -- the appended element is the only one that may be out of order
    intro i hi hne
    by_cases hlt : i < h.length
    · have := hh i hi
      simpa [profile, hlt, (by omega : (i - 1) / 2 < h.length), List.getElem?_append,
        (by omega : i < h.length + 1), (by omega : (i - 1) / 2 < h.length + 1)] using this
    · rw [profile_of_le key (h ++ [x]) (by omega : h.length + 1 ≤ i)]
      exact le_top
  · intro i hi hpos hparent
    rw [profile_of_le key (h ++ [x]) (by omega : h.length + 1 ≤ i)]
    exact le_top

omit hless in
/-- In a heap the root has the least key. -/
theorem IsHeap.root_le (hh : IsHeap key h) (i : Nat) :
    profile key h.length h 0 ≤ profile key h.length h i := by
  induction i using Nat.strong_induction_on with
  | _ i ih =>
    by_cases hi : i = 0
    · rw [hi]
    · exact (ih ((i - 1) / 2) (by omega)).trans (hh i (by omega))

omit hless in
/-- With the root exchanged for the last element, only the edges from the root
    may be out of order among the elements before the last. -/
theorem IsHeap.downReady_swap (hh : IsHeap key h)
    (hn : h.length = n + 1) : DownReady (profile key n (Heap.swap h 0 n)) 0 := by
  have hsame : ∀ k, 0 < k → k < n →
      profile key n (Heap.swap h 0 n) k = profile key h.length h k := by
    intro k hk hkn
    rw [profile_of_lt key _ hkn, profile_of_lt key h (by omega),
      swap_getElem? (by omega) (by omega), Equiv.swap_apply_of_ne_of_ne (by omega) (by omega)]
  refine ⟨?_, fun i _ hpos => absurd hpos (by omega)⟩
  intro i hi hparent
  by_cases hin : i < n
  · rw [hsame i hi hin, hsame _ (by omega) (by omega)]
    exact hh i hi
  · rw [profile_of_le key _ (by omega : n ≤ i)]
    exact le_top

omit hless in
/-- Dropping the last element keeps the order of the elements before it. -/
theorem isHeap_dropLast (hn : h.length = n + 1)
    (hord : Ordered (profile key n h)) : IsHeap key h.dropLast := by
  have hlen : h.dropLast.length = n := by simp [hn]
  have hsame : profile key n h.dropLast = profile key n h := by
    funext k
    by_cases hk : k < n
    · rw [profile_of_lt key _ hk, profile_of_lt key _ hk, List.getElem?_dropLast, if_pos (by omega)]
    · rw [profile_of_le key _ (by omega : n ≤ k), profile_of_le key _ (by omega : n ≤ k)]
  unfold IsHeap
  rw [hlen, hsame]
  exact hord

/-- **Specification of `pop`**: from a heap that is not empty it takes out an
    element of least key and leaves a heap of the others. -/
theorem pop_spec (hh : IsHeap key h) (hne : h ≠ []) :
    ∃ x rest, pop less h = some (x, rest) ∧ h.Perm (x :: rest) ∧ IsHeap key rest ∧
      ∀ y ∈ h, key x ≤ key y := by
  have hpos : 0 < h.length := length_pos_of_ne_nil hne
  set n := h.length - 1 with hn
  set moved := down less (Heap.swap h 0 n) 0 n with hmoved
  have hperm : moved.Perm h := (down_perm less _ _ _).trans (swap_perm h 0 n)
  have hlen : moved.length = n + 1 := by rw [hperm.length_eq]; omega
  -- the last element of the moved slice is the old root
  have hlast : moved[n]? = h[0]? := by
    rw [hmoved, down_getElem?_of_le less _ _ _ _ (Nat.le_refl n) (by simp [hn]),
      swap_getElem? hpos (by omega), Equiv.swap_apply_right]
  have hgetLast : moved.getLast? = some (h[0]) := by
    rw [getLast?_eq_getElem?, hlen]
    simpa [hpos] using hlast
  refine ⟨h[0], moved.dropLast, ?_, ?_, ?_, ?_⟩
  · simp [pop, ← hn, ← hmoved, hgetLast]
  · have hsplit := dropLast_append_getLast? (h[0]) hgetLast
    refine hperm.symm.trans ?_
    nth_rewrite 1 [← hsplit]
    exact perm_append_singleton _ _
  · refine isHeap_dropLast hlen ?_
    by_cases hzero : n = 0
    · -- the root was the only element
      intro i hi
      rw [hzero, profile_of_le key moved (by omega : 0 ≤ i)]
      exact le_top
    · exact down_ordered hless (by omega) (by simp [hn]) (hh.downReady_swap (by omega))
  · intro y hy
    obtain ⟨i, hi, rfl⟩ := mem_iff_getElem.mp hy
    have := hh.root_le i
    rw [profile_of_lt key h hpos, profile_of_lt key h hi] at this
    simpa [hpos, hi] using this

end Order

end Heap
