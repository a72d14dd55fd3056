import Ingress.Framework.Text

/-! # Normalised Names

    `pkg/provider`: the providers of Kubernetes resources build the keys of routers,
    services and middlewares by joining names with dashes, and then normalise them:
    everything but letters and numbers becomes one dash.

    * `normalize`: the code.
    * `normalize_eq_iff`: two names are normalised to the same key exactly when they have the
      same words.
    * `normalize_append`: a last part that is a word stays as it is.
    * `normalize_nat_last`: a name that ends in a number ends in a digit. -/

open Nat String

namespace Ingress.Provider

/-- `unicode.IsLetter` or `unicode.IsNumber`. -/
structure Unicode where
  isWord : Char → Bool
  ascii : ∀ c : Char, c.toNat < 128 → isWord c = c.isAlphanum

/-- `strings.FieldsFunc`, with the words as fields. -/
def fields (u : Unicode) (cs : List Char) : List (List Char) :=
  (cs.splitOnP fun c => !u.isWord c).filter (· ≠ [])

def normalize (u : Unicode) (name : String) : String :=
  "-".intercalate ((fields u name.toList).map ofList)

/-- The ASCII letters and digits. -/
def asciiWords : Unicode where
  isWord := fun c => c.toNat < 128 && c.isAlphanum
  ascii := fun c h => by simp [h]

variable {u : Unicode}

theorem isWord_of_isAlphanum {c : Char} (h : c.isAlphanum = true) : u.isWord c = true := by
  have hcases : (c.isUpper || c.isLower || c.isDigit) = true := h
  have hascii : ∀ {b : UInt32}, c.val ≤ b → b.toNat < 128 → c.toNat < 128 :=
    fun hle hlt => lt_of_le_of_lt (UInt32.le_iff_toNat_le.mp hle) hlt
  refine (u.ascii c ?_).trans h
  rcases Bool.or_eq_true_iff.mp hcases with hcases | hdigit
  · rcases Bool.or_eq_true_iff.mp hcases with hupper | hlower
    · exact hascii (of_decide_eq_true hupper).2 (by decide)
    · exact hascii (of_decide_eq_true (Bool.and_eq_true_iff.mp hlower).2) (by decide)
  · exact hascii (of_decide_eq_true (Bool.and_eq_true_iff.mp hdigit).2) (by decide)

theorem isWord_dash : u.isWord '-' = false := u.ascii '-' (by decide)

/-- Fields on both sides of a dash. -/
theorem fields_append (cs cs' : List Char) :
    fields u (cs ++ '-' :: cs') = fields u cs ++ fields u cs' := by
  have hdash : (!u.isWord '-') = true := by rw [isWord_dash]; rfl
  rw [fields, List.splitOnP_append_cons cs cs' hdash, List.filter_append]
  rfl

theorem fields_word {w : List Char} (hne : w ≠ []) (hw : ∀ c ∈ w, u.isWord c = true) :
    fields u w = [w] := by
  have hsingle : w.splitOnP (fun c => !u.isWord c) = [w] :=
    List.splitOnP_eq_singleton fun c hc => by rw [hw c hc]; rfl
  simp [fields, hsingle, hne]

/-! ## The words of a name -/

theorem fields_ne_nil {cs : List Char} {c : Char} (hmem : c ∈ cs) (hword : u.isWord c = true) :
    fields u cs ≠ [] := by
  induction cs with
  | nil => cases hmem
  | cons x cs ih =>
    rw [fields, List.splitOnP_cons_eq_if_modifyHead]
    split
    · next hsep =>
      have hne : c ≠ x := by
        rintro rfl
        simp [hword] at hsep
      simpa [fields] using ih ((List.mem_cons.mp hmem).resolve_left hne)
    · cases hsplit : cs.splitOnP fun c => !u.isWord c with
      | nil => exact absurd hsplit (List.splitOnP_ne_nil _ _)
      | cons first rest => simp

/-- Words, as `fields` finds them. -/
def IsWords (u : Unicode) (ws : List (List Char)) : Prop :=
  ∀ w ∈ ws, w ≠ [] ∧ ∀ c ∈ w, u.isWord c = true

/-- The key of a list of words. -/
def keyOf (ws : List (List Char)) : String :=
  "-".intercalate (ws.map ofList)

theorem normalize_eq_keyOf (name : String) : normalize u name = keyOf (fields u name.toList) := rfl

theorem isWords_fields (cs : List Char) : IsWords u (fields u cs) := by
  intro w hw
  obtain ⟨hmem, hne⟩ := List.mem_filter.mp hw
  exact ⟨by simpa using hne, fun c hc => by simpa using Text.not_sep_of_mem_splitOnP hmem c hc⟩

theorem isWords_cons {w : List Char} {ws : List (List Char)} (hne : w ≠ [])
    (hw : w.all Char.isAlphanum = true) (h : IsWords u ws) : IsWords u (w :: ws) := by
  intro x hx
  rcases List.mem_cons.mp hx with rfl | hx
  · exact ⟨hne, fun c hc => isWord_of_isAlphanum (List.all_eq_true.mp hw c hc)⟩
  · exact h x hx

theorem IsWords.append {ws ws' : List (List Char)} (h : IsWords u ws) (h' : IsWords u ws') :
    IsWords u (ws ++ ws') := by
  intro w hw
  rcases List.mem_append.mp hw with hw | hw
  · exact h w hw
  · exact h' w hw

/-- The key keeps the words. -/
theorem fields_keyOf {ws : List (List Char)} (h : IsWords u ws) : fields u (keyOf ws).toList = ws := by
  induction ws with
  | nil => rfl
  | cons w ws ih =>
    have hw := fields_word (h w (.head _)).1 (h w (.head _)).2
    cases ws with
    | nil => simpa [keyOf] using hw
    | cons w' ws =>
      have hlist : (keyOf (w :: w' :: ws)).toList = w ++ '-' :: (keyOf (w' :: ws)).toList := by
        simp [keyOf, intercalate_cons_cons]
      rw [hlist, fields_append, hw, ih fun x hx => h x (.tail _ hx)]
      rfl

/-- One more word. -/
theorem keyOf_concat {ws : List (List Char)} (hne : ws ≠ []) (w : List Char) :
    keyOf (ws ++ [w]) = keyOf ws ++ "-" ++ ofList w := by
  rw [keyOf, List.map_append, intercalate_append_of_ne_nil (by simpa using hne) (by simp)]
  simp [keyOf]

theorem keyOf_inj {ws ws' : List (List Char)} (h : IsWords u ws) (h' : IsWords u ws') :
    keyOf ws = keyOf ws' ↔ ws = ws' := by
  refine ⟨fun heq => ?_, fun heq => by rw [heq]⟩
  rw [← fields_keyOf h, heq, fields_keyOf h']

/-- **Two names have the same key** exactly when they have the same words. -/
theorem normalize_eq_iff {name name' : String} :
    normalize u name = normalize u name' ↔ fields u name.toList = fields u name'.toList :=
  keyOf_inj (isWords_fields _) (isWords_fields _)

theorem fields_normalize (name : String) :
    fields u (normalize u name).toList = fields u name.toList :=
  fields_keyOf (isWords_fields _)

theorem not_mem_normalize {c : Char} (hword : u.isWord c = false) (hdash : c ≠ '-') (name : String) :
    c ∉ (normalize u name).toList := by
  have hkey : ∀ ws, IsWords u ws → c ∉ (keyOf ws).toList := by
    intro ws h
    have hnot : ∀ w ∈ ws, c ∉ w := fun w hw hc => by simp [(h w hw).2 c hc] at hword
    induction ws with
    | nil => simp [keyOf]
    | cons w ws ih =>
      have hrest := ih (fun x hx => h x (.tail _ hx)) fun x hx => hnot x (.tail _ hx)
      cases ws with
      | nil => simpa [keyOf] using hnot w (.head _)
      | cons w' ws =>
        simpa [keyOf, intercalate_cons_cons, hdash, hnot w (.head _)] using hrest
  exact hkey _ (isWords_fields _)

/-- A name of two parts. -/
theorem fields_dash (s t : String) :
    fields u (s ++ "-" ++ t).toList = fields u s.toList ++ fields u t.toList := by
  rw [← fields_append]
  simp

/-- **A last part that is a word** stays as it is, after what depends on the rest only. -/
theorem normalize_append (u : Unicode) (name : String) : ∃ front : String, ∀ word : String,
    word ≠ "" → (∀ c ∈ word.toList, u.isWord c = true) →
      normalize u (name ++ "-" ++ word) = front ++ word := by
  refine ⟨if fields u name.toList = [] then "" else normalize u name ++ "-", fun word hne hword => ?_⟩
  have hfields : fields u (name ++ "-" ++ word).toList =
      fields u name.toList ++ [word.toList] := by
    rw [fields_dash, fields_word (by simpa using hne) hword]
  rw [normalize, hfields, List.map_append, List.map_singleton, ofList_toList]
  split
  next hnil => simp [hnil]
  next hsome =>
    rw [intercalate_append_of_ne_nil (by simpa using hsome) (by simp),
      intercalate_singleton, normalize]

theorem isWord_toString (u : Unicode) (n : ℕ) : ∀ c ∈ (toString n).toList, u.isWord c = true := by
  intro c hc
  rw [toString_eq_ofList_toDigits, toList_ofList] at hc
  have hdigit := isDigit_of_mem_toDigits (by decide) (le_refl 10) hc
  exact isWord_of_isAlphanum (by rw [Char.isAlphanum, hdigit, Bool.or_true])

/-- A last part that is a number. -/
theorem normalize_append_nat (u : Unicode) (name : String) : ∃ front : String, ∀ n : ℕ,
    normalize u (name ++ "-" ++ toString n) = front ++ toString n := by
  obtain ⟨front, hfront⟩ := normalize_append u name
  exact ⟨front, fun n => hfront (toString n) repr_ne_empty (isWord_toString u n)⟩

/-- A name that ends in a number ends in a digit. -/
theorem normalize_nat_last (u : Unicode) (name : String) (n : ℕ) :
    ∃ c, c.isDigit = true ∧
      (normalize u (name ++ "-" ++ toString n)).toList.getLast? = some c := by
  obtain ⟨front, hfront⟩ := normalize_append_nat u name
  have hdigits : (toString n).toList = toDigits 10 n := by
    rw [toString_eq_ofList_toDigits, toList_ofList]
  have hne : toDigits 10 n ≠ [] := toDigits_ne_nil
  refine ⟨_, isDigit_of_mem_toDigits (by decide) (le_refl 10) (List.getLast_mem hne), ?_⟩
  rw [hfront, toList_append, hdigits, List.getLast?_append_of_ne_nil _ hne,
    List.getLast?_eq_some_getLast hne]

end Ingress.Provider
