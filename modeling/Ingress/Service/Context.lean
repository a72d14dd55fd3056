import Mathlib.Data.Finmap
import Mathlib.Tactic

/-! # Building Services

    What the builders of HTTP, TCP and UDP services share: provider names
    (`pkg/server/provider`), the check against recursion
    (`pkg/server/recursion`), the runtime information of a service
    (`pkg/config/runtime`) and the shuffling of load balancers.

    A service refers to others by name.  A name without a provider stands for
    the service of that name of the provider of the referring service, so what
    a reference means depends on the referring service alone
    (`getQualifiedName_addInContext`). -/

open List

namespace Ingress.Service

/-! ## Names -/

/-- What a context carries: a provider name, and the services under construction. -/
structure Ctx where
  provider : Option String
  stack : List String
  deriving DecidableEq, Repr

/-- A context without a service under construction. -/
def rootCtx (provider : Option String) : Ctx where
  provider
  stack := []

/-- `strings.Split(elementName, "@")`. -/
def nameParts (elementName : String) : List String :=
  (elementName.toList.splitOn '@').map String.ofList

/-- The second part of a name. -/
def providerOf (elementName : String) : Option String :=
  (nameParts elementName)[1]?

def addInContext (ctx : Ctx) (elementName : String) : Ctx :=
  match providerOf elementName with
  | none => ctx
  | some providerName => { ctx with provider := some providerName }

def makeQualifiedName (providerName elementName : String) : String :=
  elementName ++ "@" ++ providerName

def getQualifiedName (ctx : Ctx) (elementName : String) : String :=
  match nameParts elementName, ctx.provider with
  | [name], some providerName => makeQualifiedName providerName name
  | _, _ => elementName

/-- What the service of name `parent` refers to by `elementName`. -/
def resolve (parent elementName : String) : String :=
  getQualifiedName (rootCtx (providerOf parent)) elementName

theorem providerOf_makeQualifiedName (prov elem : String) :
    providerOf (makeQualifiedName prov elem) ≠ none := by
  have hsplit : (makeQualifiedName prov elem).toList.splitOn '@' =
      elem.toList.splitOn '@' ++ prov.toList.splitOn '@' := by
    have hlist : (makeQualifiedName prov elem).toList =
        elem.toList ++ '@' :: prov.toList := by
      simp [makeQualifiedName]
    rw [hlist, splitOn_append_cons_self]
  have h₁ := length_pos_of_ne_nil (splitOn_ne_nil '@' elem.toList)
  have h₂ := length_pos_of_ne_nil (splitOn_ne_nil '@' prov.toList)
  unfold providerOf nameParts
  rw [hsplit]
  -- both sides of the `@` have at least one part
  intro hnone
  simp at hnone
  omega

/-- A name without a provider is qualified by every context that has one. -/
theorem provider_of_unqualified {ctx : Ctx} {elem : String}
    (h : providerOf (getQualifiedName ctx elem) = none) : ctx.provider = none := by
  unfold getQualifiedName at h
  split at h
  · exact absurd h (providerOf_makeQualifiedName _ _)
  · next hparts =>
    cases hctx : ctx.provider with
    | none => rfl
    | some prov =>
      -- with a provider in the context, the name itself has two parts
      have hlen : (nameParts elem).length ≤ 1 := by
        unfold providerOf at h
        rw [List.getElem?_eq_none_iff] at h
        omega
      cases hname : nameParts elem with
      | nil =>
        exact absurd (map_eq_nil_iff.mp hname) (splitOn_ne_nil _ _)
      | cons name rest =>
        rw [hname] at hlen
        obtain rfl : rest = [] := length_eq_zero_iff.mp (by simpa using hlen)
        exact absurd hctx (hparts name prov hname)

/-- The provider of the context of a service under construction is that of its
    name. -/
theorem provider_addInContext (ctx : Ctx) (elem : String) :
    (addInContext ctx (getQualifiedName ctx elem)).provider =
      providerOf (getQualifiedName ctx elem) := by
  unfold addInContext
  cases h : providerOf (getQualifiedName ctx elem) with
  | none => exact provider_of_unqualified h
  | some prov => rfl

@[simp] theorem stack_addInContext (ctx : Ctx) (elem : String) :
    (addInContext ctx elem).stack = ctx.stack := by
  unfold addInContext
  cases providerOf elem <;> rfl

/-- Only the provider of a context matters for the meaning of a name. -/
theorem getQualifiedName_congr {ctx ctx' : Ctx} (h : ctx.provider = ctx'.provider)
    (elementName : String) :
    getQualifiedName ctx elementName = getQualifiedName ctx' elementName := by
  unfold getQualifiedName
  rw [h]

/-- **References**: the meaning of a name depends on the referring service alone. -/
theorem getQualifiedName_addInContext {ctx ctx' : Ctx} {name : String}
    (hctx : ctx'.provider = (addInContext ctx (getQualifiedName ctx name)).provider)
    (elementName : String) :
    getQualifiedName ctx' elementName = resolve (getQualifiedName ctx name) elementName := by
  rw [provider_addInContext] at hctx
  exact getQualifiedName_congr hctx elementName

/-! ## Recursion -/

def checkRecursion (ctx : Ctx) (itemType itemName : String) : Except String Ctx :=
  let name := itemType ++ ":" ++ itemName
  if name ∈ ctx.stack then
    let path := "->".intercalate (ctx.stack ++ [name])
    .error s!"could not instantiate {itemType} {itemName}: recursion detected in {path}"
  else .ok { ctx with stack := ctx.stack ++ [name] }

/-! ## Runtime information -/

/-- The status of a piece of configuration. -/
inductive Status where
  | enabled
  | warning
  | disabled
  deriving DecidableEq, Repr

/-- A piece of configuration with its errors and its status. -/
structure Info (α : Type) where
  conf : α
  err : List String
  status : Status

/-- Configuration that nothing was said about yet. -/
def Info.enabled {α : Type} (conf : α) : Info α where
  conf
  err := []
  status := .enabled

def Info.addError {α : Type} (info : Info α) (err : String) (critical : Bool) : Info α :=
  if err ∈ info.err then info
  else
    { info with
      err := info.err ++ [err]
      status := if critical ∨ info.status = .disabled then .disabled else .warning }

variable {α : Type}

@[simp] theorem Info.addError_conf (info : Info α) (err : String) (critical : Bool) :
    (info.addError err critical).conf = info.conf := by
  unfold Info.addError
  split <;> rfl

/-- An error that is added to a service changes no configuration. -/
theorem map_conf_addError {configs : Finmap fun _ : String => Info α} {name : String}
    {info : Info α} (h : configs.lookup name = some info) (err : String) (critical : Bool)
    (n : String) :
    ((configs.insert name (info.addError err critical)).lookup n).map Info.conf =
      (configs.lookup n).map Info.conf := by
  by_cases hn : n = name
  · subst hn
    simp [h]
  · rw [Finmap.lookup_insert_of_ne _ hn]

/-- Only the services of a configuration refer to others. -/
theorem finite_of_lookup (configs : Finmap fun _ : String => Info α)
    {refs : String → List String} (h : ∀ n, configs.lookup n = none → refs n = []) :
    { n | refs n ≠ [] }.Finite := by
  refine configs.keys.finite_toSet.subset ?_
  intro n hn
  by_contra hkey
  exact hn (h n (Finmap.lookup_eq_none.mpr fun hmem => hkey (Finmap.mem_keys.mpr hmem)))

/-- A character as `%q` prints it.  Characters that are not printable are not
    treated. -/
def escape : Char → List Char
  | '"' => ['\\', '"']
  | '\\' => ['\\', '\\']
  | '\n' => ['\\', 'n']
  | '\t' => ['\\', 't']
  | c => [c]

/-- A string as `%q` prints it. -/
def quote (s : String) : String :=
  "\"" ++ String.ofList (s.toList.flatMap escape) ++ "\""

/-! ## Shuffling -/

/-- A source of random permutations: one for each draw and length. -/
structure Rand where
  perm : (draw length : Nat) → Equiv.Perm (Fin length)

def Rand.shuffle {α : Type} (rand : Rand) (draw : Nat) (values : List α) : List α :=
  List.ofFn fun i => values.get (rand.perm draw values.length i)

theorem Rand.shuffle_perm (rand : Rand) (draw : Nat) (values : List α) :
    (rand.shuffle draw values).Perm values := by
  have h := (rand.perm draw values.length).ofFn_comp_perm values.get
  rw [ofFn_get] at h
  exact h

@[simp] theorem Rand.mem_shuffle (rand : Rand) (draw : Nat) (values : List α) (a : α) :
    a ∈ rand.shuffle draw values ↔ a ∈ values :=
  (rand.shuffle_perm draw values).mem_iff

/-- A shuffled list begins with the value that the permutation puts first. -/
theorem Rand.shuffle_eq_cons (rand : Rand) (draw : Nat) {vals : List α} (h : 0 < vals.length) :
    ∃ rest, rand.shuffle draw vals =
      vals.get (rand.perm draw vals.length ⟨0, h⟩) :: rest := by
  cases vals with
  | nil => cases h
  | cons v vs => exact ⟨_, ofFn_succ⟩

/-- The source that brings the value at `index draw` to the front. -/
def Rand.leading (index : Nat → Nat) : Rand where
  perm := fun draw length =>
    if h : index draw < length then Equiv.swap ⟨0, Nat.zero_lt_of_lt h⟩ ⟨index draw, h⟩ else 1

theorem Rand.leading_shuffle {index : Nat → Nat} {draw : Nat} {vals : List α} {a : α}
    (h : vals[index draw]? = some a) : ∃ rest, (Rand.leading index).shuffle draw vals = a :: rest := by
  obtain ⟨hlt, rfl⟩ := List.getElem?_eq_some_iff.mp h
  obtain ⟨rest, hrest⟩ := (Rand.leading index).shuffle_eq_cons draw (Nat.zero_lt_of_lt hlt)
  refine ⟨rest, ?_⟩
  rw [hrest]
  simp [Rand.leading, hlt, Equiv.swap_apply_left]

end Ingress.Service
