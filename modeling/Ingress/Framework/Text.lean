import Mathlib.Data.List.DropRight
import Mathlib.Data.String.Basic
import Mathlib.Tactic

/-! # Texts

    The functions of `strings` and `sort` that several packages call.

    * `isSpace`, `trim`, `trimSpace`: `strings.TrimSpace`.
    * `split`, `join`, `sortStrings`: lists of texts.
    * `split_join`: what is joined can be split. -/

open List

namespace Text

/-! ## Spaces -/

/-- `unicode.IsSpace`. -/
def isSpace (c : Char) : Bool :=
  let n := c.toNat
  (9 ≤ n && n ≤ 13) || n = 0x20 || n = 0x85 || n = 0xa0 || n = 0x1680 ||
    (0x2000 ≤ n && n ≤ 0x200a) || n = 0x2028 || n = 0x2029 || n = 0x202f || n = 0x205f || n = 0x3000

/-- A text without the spaces at its ends. -/
def trim (space : Char → Bool) (s : List Char) : List Char :=
  (s.dropWhile space).rdropWhile space

/-- `strings.TrimSpace`. -/
def trimSpace (s : String) : String :=
  String.ofList (trim isSpace s.toList)

theorem trimSpace_eq_self {s : String} (h : ∀ c ∈ s.toList, isSpace c = false) :
    trimSpace s = s := by
  have hdrop : s.toList.dropWhile isSpace = s.toList := by
    refine dropWhile_eq_self_iff.mpr fun hl => ?_
    simp [h _ (getElem_mem hl)]
  have hrdrop : s.toList.rdropWhile isSpace = s.toList := by
    refine rdropWhile_eq_self_iff.mpr fun hl => ?_
    simp [h _ (getLast_mem hl)]
  rw [trimSpace, trim, hdrop, hrdrop, String.ofList_toList]

theorem trimSpace_trimSpace (s : String) : trimSpace (trimSpace s) = trimSpace s := by
  unfold trimSpace
  rw [String.toList_ofList]
  have hhead : ((s.toList.dropWhile isSpace).rdropWhile isSpace).dropWhile isSpace =
      (s.toList.dropWhile isSpace).rdropWhile isSpace := by
    cases hl : (s.toList.dropWhile isSpace).rdropWhile isSpace with
    | nil => rfl
    | cons c l =>
      -- the first character is that of the text without the spaces in front of it
      obtain ⟨rest, hpre⟩ := rdropWhile_prefix isSpace (l := s.toList.dropWhile isSpace)
      rw [hl, cons_append] at hpre
      have hc : ¬ isSpace c = true := by
        have hdrop := dropWhile_idempotent isSpace s.toList
        rw [← hpre] at hdrop
        simpa using dropWhile_eq_self_iff.mp hdrop
      rw [dropWhile_cons_of_neg hc]
  rw [trim, trim, hhead, rdropWhile_idempotent]

/-! ## Lists of texts -/

/-- `strings.Split` at a character. -/
def split (sep : Char) (s : String) : List String :=
  (s.toList.splitOn sep).map String.ofList

/-- `strings.Join` with a character. -/
def join (sep : Char) (ss : List String) : String :=
  String.ofList ([sep].intercalate (ss.map String.toList))

/-- `sort.Strings`. -/
def sortStrings (ss : List String) : List String :=
  ss.insertionSort (· ≤ ·)

/-- The parts of a list have no separators. -/
theorem not_sep_of_mem_splitOnP {α : Type u} {p : α → Bool} {l part : List α}
    (h : part ∈ l.splitOnP p) : ∀ a ∈ part, p a = false := by
  induction l generalizing part with
  | nil =>
    rw [splitOnP_nil, mem_singleton] at h
    simp [h]
  | cons a l ih =>
    rw [splitOnP_cons_eq_if_modifyHead] at h
    split at h
    · rcases mem_cons.mp h with rfl | h
      · simp
      · exact ih h
    · next hsep =>
      cases hsplit : l.splitOnP p with
      | nil => exact absurd hsplit (splitOnP_ne_nil _ _)
      | cons first rest =>
        rw [hsplit, modifyHead_cons] at h
        rcases mem_cons.mp h with rfl | h
        · have hfirst := ih (by rw [hsplit]; exact .head _)
          simpa [hsep] using hfirst
        · exact ih (by rw [hsplit]; exact .tail _ h)

variable {sep : Char}

/-- What is joined can be split. -/
theorem split_join {ss : List String} (hss : ss ≠ []) (hsep : ∀ s ∈ ss, sep ∉ s.toList) :
    split sep (join sep ss) = ss := by
  have hlists : ∀ l ∈ ss.map String.toList, sep ∉ l := by
    intro l hl
    obtain ⟨s, hs, rfl⟩ := mem_map.mp hl
    exact hsep s hs
  unfold split join
  rw [String.toList_ofList, splitOn_intercalate sep hlists (by simpa using hss), map_map]
  simp

theorem not_mem_of_mem_split {s part : String} (h : part ∈ split sep s) : sep ∉ part.toList := by
  obtain ⟨l, hl, rfl⟩ := mem_map.mp h
  rw [String.toList_ofList]
  intro hsep
  simpa using not_sep_of_mem_splitOnP hl sep hsep

theorem split_eq_singleton {s : String} (h : sep ∉ s.toList) : split sep s = [s] := by
  have hjoin : join sep [s] = s := by simp [join, intercalate]
  have hsplit := split_join (cons_ne_nil s []) (by simpa using h)
  rwa [hjoin] at hsplit

theorem sortStrings_perm (ss : List String) : (sortStrings ss).Perm ss :=
  perm_insertionSort (· ≤ ·) ss

@[simp] theorem mem_sortStrings {s : String} {ss : List String} : s ∈ sortStrings ss ↔ s ∈ ss :=
  (sortStrings_perm ss).mem_iff

/-- Sorting forgets the order. -/
theorem sortStrings_eq {ss ss' : List String} (h : ss.Perm ss') : sortStrings ss = sortStrings ss' := by
  refine List.Perm.eq_of_pairwise (fun _ _ _ _ => le_antisymm)
    (pairwise_insertionSort _ _) (pairwise_insertionSort _ _) ?_
  exact (sortStrings_perm ss).trans (h.trans (sortStrings_perm ss').symm)

end Text
