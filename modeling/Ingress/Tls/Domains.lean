import Ingress.Framework.Text

/-! # Domains of Certificates

    Certificates are known by lists of domains, joined by commas.  A domain of a certificate may
    cover the first labels of a name with stars; dots at its end do not count.

    * `matchDomain`: `matchDomain` of `pkg/tls`, which is `MatchDomain` of `pkg/types`.
    * `matchDomain_trans`: what covers a cover of a name covers the name.
    * `matchDomain_wildcard`: what matching means, and the order of wildcards. -/

open List Text

namespace Ingress.Tls

/-! ## The code -/

/-- The domain without the dots at its end. -/
def trimDots (certDomain : String) : String :=
  String.ofList (certDomain.toList.rdropWhile (· = '.'))

/-- The server name with its first label, its first two labels and so on covered. -/
def candidates (serverName : String) : List String :=
  let labels := split '.' serverName
  (List.range labels.length).map fun i => join '.' (List.replicate (i + 1) "*" ++ labels.drop (i + 1))

def matchDomain (serverName certDomain : String) : Bool :=
  serverName = certDomain || (candidates serverName).contains (trimDots certDomain)

/-- The loop over the labels: `covered` were overwritten by the turns before. -/
def matchLabels (certDomain : String) (covered : List String) : List String → Bool
  | [] => false
  | _ :: labels =>
    certDomain = join '.' (covered ++ "*" :: labels) ||
      matchLabels certDomain (covered ++ ["*"]) labels

/-! ## Covers -/

theorem matchDomain_self (s : String) : matchDomain s s = true := by
  simp [matchDomain]

/-- The labels with the first ones covered. -/
def cover (labels : List String) (i : ℕ) : List String :=
  List.replicate (i + 1) "*" ++ labels.drop (i + 1)

theorem mem_candidates {s d : String} :
    d ∈ candidates s ↔ ∃ i < (split '.' s).length, d = join '.' (cover (split '.' s) i) := by
  simp only [candidates, mem_map, mem_range, cover]
  exact exists_congr fun i => and_congr_right fun _ => eq_comm

/-- Covering twice covers what either covers. -/
theorem cover_cover (labels : List String) (i j : ℕ) :
    cover (cover labels i) j = if j ≤ i then cover labels i else cover labels j := by
  unfold cover
  split
  · next hle =>
    rw [drop_append_of_le_length (by simpa using hle), drop_replicate, ← append_assoc,
      replicate_append_replicate, show j + 1 + (i + 1 - (j + 1)) = i + 1 by omega]
  · next hlt =>
    rw [drop_append, drop_eq_nil_of_le (by simp; omega), nil_append,
      length_replicate, drop_drop, show i + 1 + (j + 1 - (i + 1)) = j + 1 by omega]

theorem split_join_cover (s : String) (i : ℕ) :
    split '.' (join '.' (cover (split '.' s) i)) = cover (split '.' s) i := by
  refine split_join (by simp [cover]) fun label hlabel => ?_
  rcases mem_append.mp hlabel with hstar | hlabel
  · rw [eq_of_mem_replicate hstar]
    decide
  · exact not_mem_of_mem_split (mem_of_mem_drop hlabel)

/-- **What covers a cover of a name covers the name**, when the first one has no dot at its end. -/
theorem matchDomain_trans {s d d' : String} (hdot : trimDots d = d) (h : matchDomain s d = true)
    (h' : matchDomain d d' = true) : matchDomain s d' = true := by
  simp only [matchDomain, Bool.or_eq_true, decide_eq_true_eq, contains_iff_mem] at h h' ⊢
  rcases h with rfl | h
  · exact h'
  rcases h' with rfl | h'
  · exact .inr h
  rw [hdot] at h
  obtain ⟨i, hi, rfl⟩ := mem_candidates.mp h
  obtain ⟨j, hj, heq⟩ := mem_candidates.mp h'
  rw [split_join_cover] at heq hj
  right
  rw [mem_candidates, heq, cover_cover]
  split
  · exact ⟨i, hi, rfl⟩
  · refine ⟨j, ?_, rfl⟩
    simp only [cover, length_append, length_replicate, length_drop] at hj
    omega

/-! ## Wildcards -/

theorem matchLabels_iff {d : String} {covered labels : List String} :
    matchLabels d covered labels = true ↔
      ∃ i < labels.length, d = join '.' (covered ++ cover labels i) := by
  induction labels generalizing covered with
  | nil => simp [matchLabels]
  | cons label labels ih =>
    rw [matchLabels, Bool.or_eq_true, ih, length_cons, Nat.exists_lt_succ_left]
    simp [cover, replicate_succ]

variable {d c c' : String}

/-- `c` is a wildcard of `d`: `k + 1` stars, then the other labels of `d`. -/
def IsCover (d : String) (k : ℕ) (c : String) : Prop :=
  k < (split '.' d).length ∧ trimDots c = join '.' (cover (split '.' d) k)

/-- What is joined after `l` does not change how the text begins. -/
theorem exists_intercalate (sep : Char) (l : List (List Char)) : ∃ start, ∀ x m, ∃ rest,
    [sep].intercalate (l ++ x :: m) = start ++ (x ++ rest) := by
  induction l with
  | nil =>
    refine ⟨[], fun x m => ?_⟩
    cases m with
    | nil => exact ⟨[], by simp [intercalate]⟩
    | cons y m => exact ⟨sep :: [sep].intercalate (y :: m), by simp [intercalate]⟩
  | cons y l ih =>
    obtain ⟨start, h⟩ := ih
    refine ⟨y ++ sep :: start, fun x m => ?_⟩
    obtain ⟨rest, hrest⟩ := h x m
    refine ⟨rest, ?_⟩
    cases l <;> simp_all [intercalate]

variable {k k' : ℕ}

theorem IsCover.toList_eq (h : IsCover d k c) : ∃ dots, c.toList =
    ['.'].intercalate (replicate (k + 1) ['*'] ++ ((split '.' d).drop (k + 1)).map String.toList)
      ++ dots := by
  obtain ⟨dots, hdots⟩ := rdropWhile_prefix (· = '.') (l := c.toList)
  have htrim := congrArg String.toList h.2
  simp only [trimDots, join, cover, String.toList_ofList, map_append, map_replicate] at htrim
  exact ⟨dots, by rw [← hdots, htrim]; rfl⟩

/-- Fewer stars make a greater text: the first label that only one of two wildcards covers begins
    with a star in the one, with a greater character in the other. -/
theorem IsCover.lt (hd : ∀ label ∈ split '.' d, label.toList.head?.any ('*' < ·))
    (h : IsCover d k c) (h' : IsCover d k' c') (hlt : k < k') : c' < c := by
  obtain ⟨j, rfl⟩ := Nat.exists_eq_add_of_lt hlt
  obtain ⟨dots, hc⟩ := h.toList_eq
  obtain ⟨dots', hc'⟩ := h'.toList_eq
  have hk : k + 1 < (split '.' d).length := by have := h'.1; omega
  obtain ⟨b, hb, hstar⟩ := (Option.any_eq_true ..).mp (hd _ (getElem_mem hk))
  obtain ⟨label, hlabel⟩ := head?_eq_some_iff.mp hb
  obtain ⟨start, hstart⟩ := exists_intercalate '.' (replicate (k + 1) ['*'])
  rw [drop_eq_getElem_cons hk, map_cons, hlabel] at hc
  rw [show k + j + 1 + 1 = k + 1 + (j + 1) by omega, replicate_add, append_assoc,
    replicate_succ (n := j), cons_append] at hc'
  obtain ⟨rest, hrest⟩ := hstart _ _
  obtain ⟨rest', hrest'⟩ := hstart _ _
  rw [String.lt_iff_toList_lt, hc, hc', hrest, hrest', append_assoc, append_assoc, append_assoc]
  exact Lex.append_left _ (.rel (of_decide_eq_true hstar)) _

/-- **Domain matching has the wildcard meaning**: a domain matches a name that it is or covers with
    stars; so does what matches it; and of two wildcards of a name the greater has fewer stars, when
    the labels of the name begin after `*`. -/
theorem matchDomain_wildcard :
    (∀ d c, (matchDomain d c = (d = c || matchLabels (trimDots c) [] (split '.' d))) ∧
      (matchDomain d c = true ↔ d = c ∨ ∃ k, IsCover d k c)) ∧
    (∀ d c c', trimDots c = c → trimDots c' = c' → matchDomain d c = true →
      matchDomain c c' = true → matchDomain d c' = true) ∧
    ∀ d, (∀ label ∈ split '.' d, label.toList.head?.any ('*' < ·)) →
      ∀ c c' k k', IsCover d k c → IsCover d k' c' → k < k' → c' < c := by
  refine ⟨fun d c => ⟨?_, ?_⟩, fun d c c' hc _ h h' => matchDomain_trans hc h h',
    fun d hd c c' k k' h h' hlt => h.lt hd h' hlt⟩
  · rw [Bool.eq_iff_iff, Bool.or_eq_true, matchLabels_iff]
    simp [matchDomain, mem_candidates]
  · simp [matchDomain, mem_candidates, IsCover]

theorem wildcard_two_labels : "*.*" < "*.b" :=
  matchDomain_wildcard.2.2 "a.b" (by decide +kernel) "*.b" "*.*" 0 1
    ⟨by decide, by decide +kernel⟩ ⟨by decide, by decide +kernel⟩ (by decide)

end Ingress.Tls
