import Ingress.Framework.Journal

/-! # The Models of Entry Points

    `applyModel` of `pkg/server/aggregator.go`: a root router is copied for every entry
    point that has a model, under a name made of that of the entry point and its own, and
    keeps the other entry points.  The parents of the other routers are then rewritten to
    the names that exist.

    The order in which the maps are walked is a parameter.  After `mergeConfiguration`
    the list of parents of a router is nil exactly when it is empty.

    * `mergeRouter`, `applyModel`: the code, for HTTP routers.
    * `Writes`: the names a router is written under.
    * `preserved_iff_sound`: when routing is preserved. -/

open Option List

namespace Ingress.EntryPointModels

/-! ## Routers and models -/

/-- `RouterObservabilityConfig`. -/
structure Observability where
  accessLogs : Option Bool
  metrics : Option Bool
  tracing : Option Bool
  traceVerbosity : String

/-- `Router`.  The options of TLS and of denied characters are some value of `τ`. -/
structure Router (τ : Type) where
  entryPoints : List String
  middlewares : List String
  service : String
  rule : String
  parentRefs : List String
  ruleSyntax : String
  priority : ℤ
  tls : Option τ
  observability : Option Observability
  defaultRule : Bool
  deniedEncodedPathCharacters : Option τ

structure Model (τ : Type) where
  middlewares : List String
  tls : Option τ
  observability : Observability
  deniedEncodedPathCharacters : Option τ
  defaultRuleSyntax : String

/-- HTTP routers by name. -/
abbrev Routers (τ : Type) := Finmap fun _ : String => Router τ

/-- Models by name. -/
abbrev Models (τ : Type) := Finmap fun _ : String => Model τ

variable {τ : Type}

/-! ## The code -/

def makeQualifiedName (providerName elementName : String) : String :=
  elementName ++ "@" ++ providerName

/-- What `mergeConfiguration` does to a router of a provider, whose `ParentRefs` may be
    nil. -/
def mergeRouter (defaultEntryPoints : List String) (pvd : String) (parentRefs : Option (List String))
    (router : Router τ) : Router τ :=
  { router with
    entryPoints :=
      if router.entryPoints.isEmpty && parentRefs.isNone then defaultEntryPoints
      else router.entryPoints
    parentRefs := (parentRefs.getD []).map fun ref =>
      if ref.toList.contains '@' then ref else makeQualifiedName pvd ref }

/-- The rule syntax of the first internal model that the loop comes to. -/
def withRuleSyntax (modelOrder : List String) (models : Models τ) (router : Router τ) : Router τ :=
  if !router.defaultRule && router.ruleSyntax.isEmpty then
    match (modelOrder.find? fun n => "@internal".toList.isSuffixOf n.toList).bind models.lookup with
    | some model => { router with ruleSyntax := model.defaultRuleSyntax }
    | none => router
  else router

/-- The observability of a router, completed by that of a model. -/
def completeObservability (own : Option Observability) (model : Observability) : Observability where
  accessLogs := (own.bind (·.accessLogs)) <|> model.accessLogs
  metrics := (own.bind (·.metrics)) <|> model.metrics
  tracing := (own.bind (·.tracing)) <|> model.tracing
  traceVerbosity :=
    match own with
    | some o => if o.traceVerbosity.isEmpty then model.traceVerbosity else o.traceVerbosity
    | none => model.traceVerbosity

/-- The copy of a router for an entry point with a model. -/
def Model.copy (m : Model τ) (epName : String) (router : Router τ) : Router τ :=
  { router with
    entryPoints := [epName]
    tls := router.tls <|> m.tls
    middlewares := m.middlewares ++ router.middlewares
    deniedEncodedPathCharacters := m.deniedEncodedPathCharacters <|> router.deniedEncodedPathCharacters
    observability := some (completeObservability router.observability m.observability) }

variable (models : Models τ)

/-- The model of an entry point. -/
def modelOf (epName : String) : Option (Model τ) :=
  models.lookup (epName ++ "@internal")

def copyName (epName name : String) : String :=
  epName ++ "-" ++ name

/-- The loop over the entry points of a router, with the router as it is so far: what is
    written to the map of the routers.  `many` says that there are several. -/
def emitEntryPoints (models : Models τ) (name : String) (many : Bool) :
    List String → Router τ → List (String × Router τ)
  | [], _ => []
  | epName :: eps, router =>
    match modelOf models epName with
    | some m =>
      (if many then copyName epName name else name, m.copy epName router) ::
        emitEntryPoints models name many eps router
    | none =>
      (name, { router with entryPoints := router.entryPoints ++ [epName] }) ::
        emitEntryPoints models name many eps { router with entryPoints := router.entryPoints ++ [epName] }

/-- What a router writes to the map of the routers. -/
def emit (modelOrder : List String) (models : Models τ) (name : String) (rt : Router τ) :
    List (String × Router τ) :=
  if !rt.parentRefs.isEmpty then [(name, rt)]
  else
    emitEntryPoints models name (1 < rt.entryPoints.length) rt.entryPoints
      { withRuleSyntax modelOrder models rt with entryPoints := [] }

/-- `modelRouterNames`, for one router. -/
def modelRouterNames (routers : Routers τ) (name : String) : List String :=
  match routers.lookup name with
  | some rt =>
    if rt.parentRefs.isEmpty && decide (1 < rt.entryPoints.length) then
      (rt.entryPoints.filter fun ep => (modelOf models ep).isSome).map (copyName · name)
    else []
  | none => []

/-- A router of the result, and the name of the router it stems from. -/
structure Output (τ : Type) where
  source : String
  router : Router τ

/-- The map of the routers after the first loop. -/
def split (order modelOrder : List String) (models : Models τ) (routers : Routers τ) :
    Finmap fun _ : String => Output τ :=
  Journal.replay ∅ (order.flatMap fun name =>
    match routers.lookup name with
    | some rt => (emit modelOrder models name rt).map fun w => (w.1, ⟨name, w.2⟩)
    | none => [])

/-- The second loop: the parents of a router. -/
def rewriteParents (routers : Routers τ)
    (rts : Finmap fun _ : String => Output τ) (parentRefs : List String) : List String :=
  parentRefs.flatMap fun ref =>
    (if (rts.lookup ref).isSome then [ref] else []) ++ modelRouterNames models routers ref

/-- `applyDefaultObservabilityModel`, for one router. -/
def applyDefaultObservability (router : Router τ) : Router τ :=
  if !router.parentRefs.isEmpty then router
  else
    { router with
      observability := some (completeObservability router.observability
        ⟨some true, some true, some true, "minimal"⟩) }

/-- `applyModel`, for HTTP routers: the router of each name. -/
def applyModel (order modelOrder : List String) (models : Models τ) (routers : Routers τ)
    (name : String) : Option (Output τ) :=
  if modelOrder.isEmpty then
    (routers.lookup name).map fun rt => ⟨name, applyDefaultObservability rt⟩
  else
    ((split order modelOrder models routers).lookup name).map fun o =>
      ⟨o.source, applyDefaultObservability { o.router with
        parentRefs := rewriteParents models routers (split order modelOrder models routers)
          o.router.parentRefs }⟩

/-! ## Routing -/

/-- The names of the routers that stem from a router. -/
def Stems (out : String → Option (Output τ)) (name source : String) : Prop :=
  ∃ o, out name = some o ∧ o.source = source

/-- Routing is preserved: every entry point of a root leads to one router that stems from
    it, no other router becomes a root, and the parents of the others are the routers that
    stem from their parents.  A parent that does not exist may stay. -/
structure Preserved (routers : Routers τ) (out : String → Option (Output τ)) : Prop where
  roots : ∀ r rt, routers.lookup r = some rt → rt.parentRefs = [] → ∀ ep ∈ rt.entryPoints,
    ∃! n, ∃ o, out n = some o ∧ o.source = r ∧ ep ∈ o.router.entryPoints ∧
      o.router.rule = rt.rule ∧ o.router.service = rt.service ∧ o.router.priority = rt.priority
  children : ∀ n o, out n = some o → o.router.parentRefs = [] →
    ∀ rt, routers.lookup o.source = some rt → rt.parentRefs = []
  parents : ∀ c rt, routers.lookup c = some rt → rt.parentRefs ≠ [] →
    ∃ o, out c = some o ∧ o.source = c ∧
      (∀ p ∈ rt.parentRefs, ∀ n, Stems out n p → n ∈ o.router.parentRefs) ∧
      ∀ n ∈ o.router.parentRefs, (∃ p ∈ rt.parentRefs, Stems out n p) ∨
        (n ∈ rt.parentRefs ∧ routers.lookup n = none)

/-! ## Names -/

/-- The name under which an entry point of a router ends up. -/
def target (name : String) (many : Bool) (ep : String) : String :=
  if (modelOf models ep).isSome && many then copyName ep name else name

/-- The router is written under the name: its own when it has parents, and those of its
    entry points when it has none. -/
def Writes (routers : Routers τ) (source name : String) : Prop :=
  ∃ rt, routers.lookup source = some rt ∧
    if rt.parentRefs = [] then
      ∃ ep ∈ rt.entryPoints, target models source (1 < rt.entryPoints.length) ep = name
    else name = source

/-- The condition: no two routers are written under one name; a name that a router has as
    parent and that another one is written under belongs to a parent, too; and every router
    with parents has one that is left. -/
structure Sound (routers : Routers τ) : Prop where
  clash : ∀ s s' n, Writes models routers s n → Writes models routers s' n → s = s'
  taken : ∀ c rt, routers.lookup c = some rt → ∀ p ∈ rt.parentRefs, routers.lookup p ≠ none →
    ∀ s, Writes models routers s p → s = p ∨ s ∈ rt.parentRefs
  left : ∀ c rt, routers.lookup c = some rt → rt.parentRefs ≠ [] → ∃ p ∈ rt.parentRefs,
    (∃ s, Writes models routers s p) ∨ modelRouterNames models routers p ≠ []

variable {models : Models τ} {routers : Routers τ} {order modelOrder : List String}
  {name n : String} {rt router router' : Router τ}

theorem copyName_inj {ep ep' : String} (h : copyName ep name = copyName ep' name) : ep = ep' := by
  have hlist := congrArg String.toList h
  simp only [copyName, String.toList_append, append_assoc] at hlist
  exact String.toList_inj.mp (append_cancel_right hlist)

theorem copyName_ne (ep name : String) : copyName ep name ≠ name := by
  intro h
  have hlen := congrArg (fun s => s.toList.length) h
  simp only [copyName, String.toList_append, length_append] at hlen
  have hdash : "-".toList.length = 1 := rfl
  omega

/-- Rule, service and priority are those of the router. -/
structure SameRoute (router router' : Router τ) : Prop where
  rule : router'.rule = router.rule
  service : router'.service = router.service
  priority : router'.priority = router.priority
  parentRefs : router'.parentRefs = router.parentRefs

/-- What is written is written under the name of an entry point, and routes as the router. -/
theorem mem_emitEntryPoints {many : Bool} {eps : List String}
    (h : (n, router') ∈ emitEntryPoints models name many eps router) :
    (∃ ep ∈ eps, target models name many ep = n) ∧ SameRoute router router' := by
  induction eps generalizing router with
  | nil => cases h
  | cons ep eps ih =>
    rw [emitEntryPoints] at h
    split at h <;> rename_i hmodel
    all_goals
      rcases mem_cons.mp h with heq | hmem
      · obtain ⟨rfl, rfl⟩ := Prod.mk.inj heq
        exact ⟨⟨ep, .head _, by simp [target, hmodel]⟩, rfl, rfl, rfl, rfl⟩
      · obtain ⟨⟨ep', hep', htgt⟩, hsame⟩ := ih hmem
        exact ⟨⟨ep', mem_cons_of_mem ep hep', htgt⟩,
          ⟨hsame.rule, hsame.service, hsame.priority, hsame.parentRefs⟩⟩

open Journal

/-- Every entry point is written under its name. -/
theorem last_emitEntryPoints_ne_none {many : Bool} {eps : List String} {ep : String} (hep : ep ∈ eps)
    (router : Router τ) :
    last (target models name many ep) (emitEntryPoints models name many eps router) ≠ none := by
  rw [Ne, last_eq_none_iff, not_not]
  induction eps generalizing router with
  | nil => cases hep
  | cons ep₀ eps ih =>
    rw [emitEntryPoints]
    rcases mem_cons.mp hep with rfl | hep
    · split
      · next m hmodel => simp [target, hmodel]
      · next hmodel => simp [target, hmodel]
    · split <;> exact .tail _ (ih hep _)

/-- An entry point with a model has its name for itself. -/
theorem target_eq_copyName {ep ep₀ : String} (h : target models name true ep = copyName ep₀ name) :
    ep = ep₀ := by
  unfold target at h
  split at h
  · exact copyName_inj h
  · exact absurd h.symm (copyName_ne ep₀ name)

/-- With several entry points, what is left under a name has the entry points of that name,
    and under the name of the router also those it had. -/
theorem last_emitEntryPoints {eps : List String}
    (h : last n (emitEntryPoints models name true eps router) = some router') (ep : String) :
    ep ∈ router'.entryPoints ↔
      (n = name ∧ ep ∈ router.entryPoints) ∨ (ep ∈ eps ∧ target models name true ep = n) := by
  induction eps generalizing router with
  | nil => cases h
  | cons ep₀ eps ih =>
    rw [emitEntryPoints] at h
    cases hmodel : modelOf models ep₀ with
    | some m =>
      have htgt : target models name true ep₀ = copyName ep₀ name := by simp [target, hmodel]
      rw [hmodel] at h
      simp only [if_true, last] at h
      cases hlast : last n (emitEntryPoints models name true eps router) with
      | some router₁ =>
        rw [hlast, some_or] at h
        obtain rfl := some.inj h
        rw [ih hlast]
        refine or_congr_right ⟨fun h => ⟨mem_cons_of_mem ep₀ h.1, h.2⟩, fun h => ⟨?_, h.2⟩⟩
        rcases mem_cons.mp h.1 with rfl | hmem
        · -- the name was written again, so the entry point comes again
          obtain ⟨⟨ep', hep', heq⟩, -⟩ := mem_emitEntryPoints (mem_of_last hlast)
          rw [← h.2, htgt] at heq
          exact target_eq_copyName heq ▸ hep'
        · exact hmem
      | none =>
        rw [hlast, none_or] at h
        split at h
        swap
        · cases h
        next hn =>
        obtain rfl := some.inj h
        subst hn
        have hentry : ep ∈ (m.copy ep₀ router).entryPoints ↔ ep = ep₀ := mem_singleton
        rw [hentry]
        constructor
        · rintro rfl
          exact .inr ⟨.head _, htgt⟩
        · rintro (⟨heq, -⟩ | ⟨-, heq⟩)
          · exact absurd heq (copyName_ne ep₀ name)
          · exact target_eq_copyName heq
    | none =>
      have htgt : target models name true ep₀ = name := by simp [target, hmodel]
      rw [hmodel] at h
      simp only [last] at h
      cases hlast : last n (emitEntryPoints models name true eps
          { router with entryPoints := router.entryPoints ++ [ep₀] }) with
      | some router₁ =>
        rw [hlast, some_or] at h
        obtain rfl := some.inj h
        rw [ih hlast, mem_append, mem_singleton, mem_cons]
        constructor
        · rintro (⟨hn, hep | rfl⟩ | ⟨hep, heq⟩)
          · exact .inl ⟨hn, hep⟩
          · exact .inr ⟨.inl rfl, htgt.trans hn.symm⟩
          · exact .inr ⟨.inr hep, heq⟩
        · rintro (⟨hn, hep⟩ | ⟨rfl | hep, heq⟩)
          · exact .inl ⟨hn, .inl hep⟩
          · exact .inl ⟨heq.symm.trans htgt, .inr rfl⟩
          · exact .inr ⟨hep, heq⟩
      | none =>
        rw [hlast, none_or] at h
        split at h
        swap
        · cases h
        next hn =>
        obtain rfl := some.inj h
        subst hn
        simp only [mem_append, mem_cons, not_mem_nil, or_false, true_and]
        refine or_congr_right ⟨?_, ?_⟩
        · rintro rfl
          exact ⟨.inl rfl, htgt⟩
        · rintro ⟨rfl | hep, heq⟩
          · rfl
          · have hsome := @last_emitEntryPoints_ne_none _ models name true eps ep hep
              { router with entryPoints := router.entryPoints ++ [ep₀] }
            rw [heq] at hsome
            exact absurd hlast hsome

/-- **What a root leaves under a name**: a router with its route, and with the entry points
    of that name. -/
theorem last_emit_root (hroot : rt.parentRefs = [])
    (h : last n (emit modelOrder models name rt) = some router') :
    SameRoute rt router' ∧ ∀ ep, ep ∈ router'.entryPoints ↔
      ep ∈ rt.entryPoints ∧ target models name (1 < rt.entryPoints.length) ep = n := by
  have hsyntax : SameRoute rt { withRuleSyntax modelOrder models rt with entryPoints := [] } := by
    unfold withRuleSyntax
    split
    · split <;> exact ⟨rfl, rfl, rfl, rfl⟩
    · exact ⟨rfl, rfl, rfl, rfl⟩
  have hnone : ({ withRuleSyntax modelOrder models rt with entryPoints := [] } : Router τ).entryPoints =
      [] := rfl
  rw [emit, if_neg (by simp [hroot])] at h
  generalize { withRuleSyntax modelOrder models rt with entryPoints := [] } = router at hsyntax hnone h
  have hsame := (mem_emitEntryPoints (mem_of_last h)).2
  refine ⟨⟨hsame.rule.trans hsyntax.rule, hsame.service.trans hsyntax.service,
    hsame.priority.trans hsyntax.priority, hsame.parentRefs.trans hsyntax.parentRefs⟩, fun ep => ?_⟩
  match heps : rt.entryPoints with
  | [] =>
    rw [heps] at h
    cases h
  | [ep₀] =>
    -- a single entry point keeps the name of the router
    have htgt : target models name (1 < [ep₀].length) ep = name := by simp [target]
    rw [heps] at h
    rw [htgt, mem_singleton]
    simp only [emitEntryPoints, length_singleton, lt_self_iff_false, decide_false,
      Bool.false_eq_true, if_false, hnone, nil_append] at h
    split at h
    all_goals
      simp only [last, none_or] at h
      split at h
      · next hn =>
        obtain rfl := some.inj h
        exact ⟨fun hep => ⟨mem_singleton.mp hep, hn⟩, fun hep => mem_singleton.mpr hep.1⟩
      · cases h
  | ep₀ :: ep₁ :: eps =>
    have hmany : decide (1 < (ep₀ :: ep₁ :: eps).length) = true := by simp
    rw [heps, hmany] at h
    rw [hmany, last_emitEntryPoints h ep, hnone]
    simp

/-! ## The map after the first loop -/

variable {o : Output τ}

section Split

variable (horder : ∀ n, n ∈ order ↔ (routers.lookup n).isSome = true)

theorem lookup_split (n : String) : (split order modelOrder models routers).lookup n =
    last n (order.flatMap fun name =>
      match routers.lookup name with
      | some rt => (emit modelOrder models name rt).map fun w => (w.1, ⟨name, w.2⟩)
      | none => []) := by
  rw [split, lookup_replay, Finmap.lookup_empty, or_none]

/-- What stands under a name was left there by the router it stems from. -/
theorem split_source (h : (split order modelOrder models routers).lookup n = some o) :
    ∃ rt, routers.lookup o.source = some rt ∧
      last n (emit modelOrder models o.source rt) = some o.router := by
  rw [lookup_split] at h
  obtain ⟨_, name, _, -, hlast, -⟩ := last_flatMap _ h
  cases hlook : routers.lookup name with
  | none =>
    rw [hlook] at hlast
    cases hlast
  | some rt =>
    rw [hlook] at hlast
    have htagged := last_map (fun router => (⟨name, router⟩ : Output τ)) n
      (emit modelOrder models name rt)
    rw [htagged] at hlast
    obtain ⟨router, hrouter, rfl⟩ := map_eq_some_iff.mp hlast
    exact ⟨rt, hlook, hrouter⟩

theorem writes_of_last {src : String} (hlook : routers.lookup src = some rt)
    (h : last n (emit modelOrder models src rt) = some router) : Writes models routers src n := by
  refine ⟨rt, hlook, ?_⟩
  have hmem := mem_of_last h
  unfold emit at hmem
  split
  · next hroot =>
    rw [if_neg (by simp [hroot])] at hmem
    exact (mem_emitEntryPoints hmem).1
  · next hchild =>
    rw [if_pos (by simpa using hchild)] at hmem
    exact (Prod.mk.inj (mem_singleton.mp hmem)).1

theorem split_writes (h : (split order modelOrder models routers).lookup n = some o) :
    Writes models routers o.source n := by
  obtain ⟨rt, hlook, hlast⟩ := split_source h
  exact writes_of_last hlook hlast

include horder in
/-- Whatever a router is written under is a name of the map. -/
theorem split_isSome {src : String} (h : Writes models routers src n) :
    ∃ o, (split order modelOrder models routers).lookup n = some o := by
  obtain ⟨rt, hlook, hwrites⟩ := h
  rw [lookup_split]
  refine ne_none_iff_exists'.mp fun hnone => ?_
  rw [last_eq_none_iff] at hnone
  have hsrc : src ∈ order := (horder src).mpr (by rw [hlook]; rfl)
  have hkey : last n (emit modelOrder models src rt) ≠ none := by
    unfold emit
    split at hwrites
    · next hroot =>
      rw [if_neg (by simp [hroot])]
      obtain ⟨ep, hep, rfl⟩ := hwrites
      exact last_emitEntryPoints_ne_none hep _
    · next hchild =>
      rw [if_pos (by simpa using hchild), hwrites]
      simp [last]
  obtain ⟨router, hrouter⟩ := ne_none_iff_exists'.mp hkey
  refine hnone (mem_map.mpr ⟨(n, ⟨src, router⟩), mem_flatMap.mpr ⟨src, hsrc, ?_⟩, rfl⟩)
  rw [hlook]
  exact mem_map.mpr ⟨(n, router), mem_of_last hrouter, rfl⟩

end Split

theorem mem_modelRouterNames {p : String} (h : n ∈ modelRouterNames models routers p) :
    Writes models routers p n := by
  unfold modelRouterNames at h
  split at h
  · next rt hlook =>
    split at h
    · next hcond =>
      rw [Bool.and_eq_true, List.isEmpty_iff] at hcond
      obtain ⟨ep, hep, rfl⟩ := List.mem_map.mp h
      obtain ⟨hep, hmodel⟩ := List.mem_filter.mp hep
      refine ⟨rt, hlook, ?_⟩
      rw [if_pos hcond.1]
      exact ⟨ep, hep, by simp [target, hmodel, hcond.2]⟩
    · cases h
  · cases h

/-- A router is written under its own name or under names that are kept for its children. -/
theorem writes_cases {p : String} (h : Writes models routers p n) :
    n = p ∨ n ∈ modelRouterNames models routers p := by
  obtain ⟨rt, hlook, hwrites⟩ := h
  split at hwrites
  · next hroot =>
    obtain ⟨ep, hep, rfl⟩ := hwrites
    unfold target
    split
    · next hcond =>
      rw [Bool.and_eq_true] at hcond
      refine .inr ?_
      unfold modelRouterNames
      rw [hlook]
      dsimp only
      rw [if_pos (by simp [hroot, of_decide_eq_true hcond.2])]
      exact mem_map.mpr ⟨ep, mem_filter.mpr ⟨hep, hcond.1⟩, rfl⟩
    · exact .inl rfl
  · exact .inl hwrites

theorem last_emit_child (hchild : rt.parentRefs ≠ [])
    (h : last n (emit modelOrder models name rt) = some router) : n = name ∧ router = rt := by
  have hmem := mem_of_last h
  rw [emit, if_pos (by simpa using hchild)] at hmem
  exact Prod.mk.inj (mem_singleton.mp hmem)

/-! ## The result -/

/-- A router of the result stands in the map with other parents. -/
structure Derived (models : Models τ) (routers : Routers τ) (rts : Finmap fun _ : String => Output τ)
    (o o' : Output τ) : Prop where
  source : o'.source = o.source
  entryPoints : o'.router.entryPoints = o.router.entryPoints
  rule : o'.router.rule = o.router.rule
  service : o'.router.service = o.router.service
  priority : o'.router.priority = o.router.priority
  parentRefs : o'.router.parentRefs = rewriteParents models routers rts o.router.parentRefs

section
variable (hmodels : modelOrder ≠ [])
include hmodels

theorem applyModel_eq (n : String) :
    ∃ change : Output τ → Output τ,
      applyModel order modelOrder models routers n =
        ((split order modelOrder models routers).lookup n).map change ∧
      ∀ o, Derived models routers (split order modelOrder models routers) o (change o) := by
  refine ⟨_, by rw [applyModel, if_neg (by simpa using hmodels)], fun o => ?_⟩
  dsimp only [applyDefaultObservability]
  split <;> exact ⟨rfl, rfl, rfl, rfl, rfl, rfl⟩

theorem derived_of_applyModel {o' : Output τ}
    (h : applyModel order modelOrder models routers n = some o') :
    ∃ o, (split order modelOrder models routers).lookup n = some o ∧
      Derived models routers (split order modelOrder models routers) o o' := by
  obtain ⟨change, heq, hder⟩ := applyModel_eq hmodels n
  rw [heq] at h
  obtain ⟨o, ho, rfl⟩ := map_eq_some_iff.mp h
  exact ⟨o, ho, hder o⟩

theorem applyModel_of_split (h : (split order modelOrder models routers).lookup n = some o) :
    ∃ o', applyModel order modelOrder models routers n = some o' ∧
      Derived models routers (split order modelOrder models routers) o o' := by
  obtain ⟨change, heq, hder⟩ := applyModel_eq hmodels n
  exact ⟨change o, by rw [heq, h]; rfl, hder o⟩

theorem stems_iff {source : String} :
    Stems (applyModel order modelOrder models routers) n source ↔
      ∃ o, (split order modelOrder models routers).lookup n = some o ∧ o.source = source := by
  constructor
  · rintro ⟨o', ho', rfl⟩
    obtain ⟨o, ho, hder⟩ := derived_of_applyModel hmodels ho'
    exact ⟨o, ho, hder.source.symm⟩
  · rintro ⟨o, ho, rfl⟩
    obtain ⟨o', ho', hder⟩ := applyModel_of_split hmodels ho
    exact ⟨o', ho', hder.source⟩

end

/-- What a router with parents becomes. -/
theorem child_output (ho : (split order modelOrder models routers).lookup n = some o)
    (hlook : routers.lookup o.source = some rt) (hchild : rt.parentRefs ≠ []) :
    n = o.source ∧ o.router = rt := by
  obtain ⟨rt', hlook', hlast⟩ := split_source ho
  obtain rfl : rt = rt' := some.inj (hlook.symm.trans hlook')
  exact last_emit_child hchild hlast

/-- A router whose name another one has taken is not preserved. -/
theorem Preserved.clash (hmodels : modelOrder ≠ [])
    (h : Preserved routers (applyModel order modelOrder models routers))
    {s : String} (hwrites : Writes models routers s n)
    (ho : (split order modelOrder models routers).lookup n = some o) : o.source = s := by
  obtain ⟨rt, hlook, hnames⟩ := hwrites
  split at hnames
  · next hroot =>
    obtain ⟨ep, hep, htgt⟩ := hnames
    obtain ⟨n', ⟨o', ho', hsrc, hmem, -⟩, -⟩ := h.roots s rt hlook hroot ep hep
    obtain ⟨o₁, ho₁, hder⟩ := derived_of_applyModel hmodels ho'
    rw [hder.entryPoints] at hmem
    rw [hder.source] at hsrc
    obtain ⟨rt', hlook', hlast⟩ := split_source ho₁
    rw [hsrc] at hlook' hlast
    obtain rfl : rt = rt' := some.inj (hlook.symm.trans hlook')
    have hn' := (((last_emit_root hroot hlast).2 ep).mp hmem).2
    rw [← htgt, hn', ho₁] at ho
    rw [← some.inj ho, hsrc]
  · next hchild =>
    obtain ⟨o', ho', hsrc, -⟩ := h.parents s rt hlook hchild
    obtain ⟨o₁, ho₁, hder⟩ := derived_of_applyModel hmodels ho'
    rw [hnames, ho₁] at ho
    rw [← some.inj ho, ← hder.source, hsrc]

section Result

variable (horder : ∀ n, n ∈ order ↔ (routers.lookup n).isSome = true) (hmodels : modelOrder ≠ [])
include horder

/-- Without clashes every router keeps its names. -/
theorem Sound.split_eq (h : Sound models routers) {source : String}
    (hwrites : Writes models routers source n) :
    ∃ o, (split order modelOrder models routers).lookup n = some o ∧ o.source = source := by
  obtain ⟨o, ho⟩ := @split_isSome _ models routers order modelOrder n horder source hwrites
  exact ⟨o, ho, h.clash o.source source n (split_writes ho) hwrites⟩

theorem mem_rewriteParents {refs : List String} :
    n ∈ rewriteParents models routers (split order modelOrder models routers) refs ↔
      ∃ p ∈ refs, (n = p ∧ ∃ s, Writes models routers s p) ∨ n ∈ modelRouterNames models routers p := by
  have hexist : ∀ p, ((split order modelOrder models routers).lookup p).isSome = true ↔
      ∃ s, Writes models routers s p := by
    intro p
    constructor
    · intro hsome
      obtain ⟨o, ho⟩ := isSome_iff_exists.mp hsome
      exact ⟨o.source, split_writes ho⟩
    · rintro ⟨s, hs⟩
      exact isSome_iff_exists.mpr (split_isSome horder hs)
  unfold rewriteParents
  rw [mem_flatMap]
  refine exists_congr fun p => and_congr_right fun _ => ?_
  rw [mem_append]
  refine or_congr_left ?_
  split
  · next hsome => simp [(hexist p).mp hsome]
  · next hnone =>
    rw [hexist] at hnone
    simp [hnone]

include hmodels

theorem Sound.roots (h : Sound models routers) {r : String} (hlook : routers.lookup r = some rt)
    (hroot : rt.parentRefs = []) {ep : String} (hep : ep ∈ rt.entryPoints) :
    ∃! n, ∃ o, applyModel order modelOrder models routers n = some o ∧ o.source = r ∧
      ep ∈ o.router.entryPoints ∧ o.router.rule = rt.rule ∧ o.router.service = rt.service ∧
      o.router.priority = rt.priority := by
  -- what stems from the root under a name
  have hleft : ∀ n o, (split order modelOrder models routers).lookup n = some o → o.source = r →
      SameRoute rt o.router ∧ (ep ∈ o.router.entryPoints ↔
        target models r (1 < rt.entryPoints.length) ep = n) := by
    intro n o ho hsrc
    obtain ⟨rt', hlook', hlast⟩ := split_source ho
    rw [hsrc] at hlook' hlast
    obtain rfl : rt = rt' := some.inj (hlook.symm.trans hlook')
    obtain ⟨hsame, hentry⟩ := last_emit_root hroot hlast
    exact ⟨hsame, by rw [hentry ep, and_iff_right hep]⟩
  refine ⟨target models r (1 < rt.entryPoints.length) ep, ?_, ?_⟩
  · have hwrites : Writes models routers r (target models r (1 < rt.entryPoints.length) ep) :=
      ⟨rt, hlook, by rw [if_pos hroot]; exact ⟨ep, hep, rfl⟩⟩
    obtain ⟨o, ho, hsrc⟩ := @Sound.split_eq _ models routers order modelOrder _ horder h r hwrites
    obtain ⟨hsame, hentry⟩ := hleft _ o ho hsrc
    obtain ⟨o', ho', hder⟩ := applyModel_of_split hmodels ho
    refine ⟨o', ho', hder.source.trans hsrc, ?_, hder.rule.trans hsame.rule,
      hder.service.trans hsame.service, hder.priority.trans hsame.priority⟩
    rw [hder.entryPoints]
    exact hentry.mpr rfl
  · rintro n ⟨o', ho', hsrc, hmem, -⟩
    obtain ⟨o, ho, hder⟩ := derived_of_applyModel hmodels ho'
    rw [hder.entryPoints] at hmem
    exact ((hleft n o ho (hder.source.symm.trans hsrc)).2.mp hmem).symm

theorem Sound.children (h : Sound models routers) {o' : Output τ}
    (ho' : applyModel order modelOrder models routers n = some o') (hnone : o'.router.parentRefs = [])
    (hlook : routers.lookup o'.source = some rt) : rt.parentRefs = [] := by
  obtain ⟨o, ho, hder⟩ := derived_of_applyModel hmodels ho'
  rw [hder.source] at hlook
  by_contra hchild
  obtain ⟨-, heq⟩ := child_output ho hlook hchild
  rw [hder.parentRefs, heq] at hnone
  -- one of the parents is left
  obtain ⟨p, hp, hleft⟩ := h.left o.source rt hlook hchild
  have hmem : ∃ n, n ∈ rewriteParents models routers (split order modelOrder models routers)
      rt.parentRefs := by
    rcases hleft with hwrites | hnames
    · exact ⟨p, (mem_rewriteParents horder).mpr ⟨p, hp, .inl ⟨rfl, hwrites⟩⟩⟩
    · obtain ⟨n, hn⟩ := exists_mem_of_ne_nil _ hnames
      exact ⟨n, (mem_rewriteParents horder).mpr ⟨p, hp, .inr hn⟩⟩
  obtain ⟨n, hn⟩ := hmem
  rw [hnone] at hn
  cases hn

theorem Sound.parents (h : Sound models routers) {c : String} (hlook : routers.lookup c = some rt)
    (hchild : rt.parentRefs ≠ []) :
    ∃ o, applyModel order modelOrder models routers c = some o ∧ o.source = c ∧
      (∀ p ∈ rt.parentRefs, ∀ n, Stems (applyModel order modelOrder models routers) n p →
        n ∈ o.router.parentRefs) ∧
      ∀ n ∈ o.router.parentRefs,
        (∃ p ∈ rt.parentRefs, Stems (applyModel order modelOrder models routers) n p) ∨
        (n ∈ rt.parentRefs ∧ routers.lookup n = none) := by
  have hwrites : Writes models routers c c := ⟨rt, hlook, by rw [if_neg hchild]⟩
  obtain ⟨o, ho, hsrc⟩ := @Sound.split_eq _ models routers order modelOrder _ horder h c hwrites
  obtain ⟨-, heq⟩ := child_output ho (hsrc ▸ hlook) hchild
  obtain ⟨o', ho', hder⟩ := applyModel_of_split hmodels ho
  refine ⟨o', ho', hder.source.trans hsrc, ?_⟩
  rw [hder.parentRefs, heq]
  constructor
  · intro p hp n hstems
    obtain ⟨o₁, ho₁, hsource₁⟩ := (stems_iff hmodels).mp hstems
    have hwrites₁ : Writes models routers p n := hsource₁ ▸ split_writes ho₁
    refine (mem_rewriteParents horder).mpr ⟨p, hp, ?_⟩
    rcases writes_cases hwrites₁ with rfl | hnames
    · exact .inl ⟨rfl, n, hwrites₁⟩
    · exact .inr hnames
  · intro n hn
    obtain ⟨p, hp, ⟨rfl, s, hs⟩ | hnames⟩ := (mem_rewriteParents horder).mp hn
    · cases hexist : routers.lookup n with
      | none => exact .inr ⟨hp, rfl⟩
      | some _ =>
        have hstems := (stems_iff hmodels).mpr (h.split_eq horder hs)
        rcases h.taken c rt hlook n hp (by rw [hexist]; exact some_ne_none _) s hs with
          rfl | hmem
        · exact .inl ⟨s, hp, hstems⟩
        · exact .inl ⟨s, hmem, hstems⟩
    · exact .inl ⟨p, hp, (stems_iff hmodels).mpr (h.split_eq horder (mem_modelRouterNames hnames))⟩

end Result

/-- **Routing is preserved** exactly when the names are unambiguous and every router with
    parents has one that is left, whatever the order of the loops. -/
theorem preserved_iff_sound (models : Models τ) (routers : Routers τ) (order modelOrder : List String)
    (horder : ∀ n, n ∈ order ↔ (routers.lookup n).isSome = true) (hmodels : modelOrder ≠ []) :
    Preserved routers (applyModel order modelOrder models routers) ↔ Sound models routers := by
  constructor
  · intro h
    refine ⟨?_, ?_, ?_⟩
    · intro s s' n hs hs'
      obtain ⟨o, ho⟩ := @split_isSome _ models routers order modelOrder n horder s hs
      exact (h.clash hmodels hs ho).symm.trans (h.clash hmodels hs' ho)
    · intro c rt hlook p hp hexist s hs
      have hchild : rt.parentRefs ≠ [] := ne_nil_of_mem hp
      obtain ⟨o', ho', hsrc, -, hpar⟩ := h.parents c rt hlook hchild
      obtain ⟨o, ho, hder⟩ := derived_of_applyModel hmodels ho'
      rw [← hsrc, hder.source] at hlook
      obtain ⟨-, heq⟩ := child_output ho hlook hchild
      rw [hder.parentRefs, heq] at hpar
      rcases hpar p ((mem_rewriteParents horder).mpr ⟨p, hp, .inl ⟨rfl, s, hs⟩⟩) with
        ⟨p', hp', hstems⟩ | ⟨-, hnone⟩
      · obtain ⟨o₁, ho₁, hsource₁⟩ := (stems_iff hmodels).mp hstems
        have heq : s = p' := (h.clash hmodels hs ho₁).symm.trans hsource₁
        exact .inr (heq ▸ hp')
      · exact absurd hnone hexist
    · intro c rt hlook hchild
      by_contra hnot
      push Not at hnot
      obtain ⟨o', ho', hsrc, -⟩ := h.parents c rt hlook hchild
      obtain ⟨o, ho, hder⟩ := derived_of_applyModel hmodels ho'
      rw [← hsrc] at hlook
      obtain ⟨-, heq⟩ := child_output ho (hder.source ▸ hlook) hchild
      refine hchild (h.children c o' ho' ?_ rt hlook)
      rw [hder.parentRefs, heq, eq_nil_iff_forall_not_mem]
      intro n hn
      obtain ⟨p, hp, ⟨-, s, hs⟩ | hnames⟩ := (mem_rewriteParents horder).mp hn
      · exact (hnot p hp).1 s hs
      · rw [(hnot p hp).2] at hnames
        cases hnames
  · intro h
    exact ⟨fun _ _ hlook hroot _ => h.roots horder hmodels hlook hroot,
      fun _ _ ho hnone _ => h.children horder hmodels ho hnone,
      fun _ _ => h.parents horder hmodels⟩

/-- The model of the entry point `web`. -/
def webModel : Models Unit :=
  Finmap.singleton "web@internal" ⟨[], none, ⟨none, none, none, ""⟩, none, ""⟩

/-- A root with two entry points and its child, of the provider `file`. -/
def siteRouters : Routers Unit :=
  Finmap.insert "site@file" (mergeRouter ["web"] "file" none
    ⟨["web", "admin"], [], "", "Host(`a`)", [], "", 0, none, none, false, none⟩)
  (Finmap.singleton "api@file" (mergeRouter ["web"] "file" (some ["site"])
    ⟨[], [], "svc", "Path(`/x`)", [], "", 0, none, none, false, none⟩))

theorem site_preserved :
    Preserved siteRouters (applyModel ["api@file", "site@file"] ["web@internal"] webModel siteRouters) ∧
    (applyModel ["api@file", "site@file"] ["web@internal"] webModel siteRouters "api@file").map
      (fun o => o.router.parentRefs) = some ["site@file", "web-site@file"] := by
  have hlook : ∀ n, siteRouters.lookup n =
      if n = "site@file" then some ⟨["web", "admin"], [], "", "Host(`a`)", [], "", 0, none, none, false, none⟩
      else if n = "api@file" then
        some ⟨[], [], "svc", "Path(`/x`)", ["site@file"], "", 0, none, none, false, none⟩
      else none := by
    intro n
    unfold siteRouters
    split
    · next h => rw [h, Finmap.lookup_insert]; rfl
    next h =>
    rw [Finmap.lookup_insert_of_ne _ h]
    split
    · next h' => rw [h', Finmap.lookup_singleton_eq]; rfl
    next h' => rw [Finmap.lookup_eq_none, Finmap.mem_singleton]; exact h'
  have hweb : target webModel "site@file" true "web" = "web-site@file" := by decide +kernel
  have hadmin : target webModel "site@file" true "admin" = "site@file" := by decide +kernel
  -- The root is written under two names, the child under its own.
  have hwrites : ∀ s n, Writes webModel siteRouters s n →
      s = "site@file" ∧ (n = "web-site@file" ∨ n = "site@file") ∨ s = "api@file" ∧ n = "api@file" := by
    rintro s n ⟨rt, hrt, hname⟩
    rw [hlook] at hrt
    split at hrt
    · next hs =>
      obtain rfl := some.inj hrt
      simpa [hs, hweb, hadmin, eq_comm] using hname
    split at hrt
    · next hs =>
      obtain rfl := some.inj hrt
      exact .inr ⟨hs, hname.trans hs⟩
    · cases hrt
  -- The only parent is the root.
  have hchild : ∀ c rt, siteRouters.lookup c = some rt → rt.parentRefs = [] ∨ rt.parentRefs = ["site@file"] := by
    intro c rt hrt
    rw [hlook] at hrt
    split at hrt
    · exact .inl (some.inj hrt ▸ rfl)
    split at hrt
    · exact .inr (some.inj hrt ▸ rfl)
    · cases hrt
  refine ⟨(preserved_iff_sound webModel siteRouters _ _ ?_ (by decide)).mpr ⟨?_, ?_, ?_⟩, by decide +kernel⟩
  · intro n
    rw [hlook]
    by_cases h : n = "site@file" <;> by_cases h' : n = "api@file" <;> simp [h, h']
  · intro s s' n hs hs'
    rcases hwrites s n hs with ⟨h, rfl | rfl⟩ | ⟨h, rfl⟩ <;>
      rcases hwrites s' _ hs' with ⟨h', hn⟩ | ⟨h', hn⟩ <;> simp_all
  · intro c rt hrt p hp _ s hs
    rcases hchild c rt hrt with hrefs | hrefs
    · rw [hrefs] at hp
      cases hp
    · rw [hrefs, mem_singleton] at hp
      obtain ⟨h, -⟩ | ⟨-, h⟩ := hwrites s p hs
      · exact .inl (h.trans hp.symm)
      · exact absurd (hp.symm.trans h) (by decide)
  · intro c rt hrt hrefs
    refine ⟨"site@file", by simp [(hchild c rt hrt).resolve_left hrefs], .inr ?_⟩
    rw [show modelRouterNames webModel siteRouters "site@file" = ["web-site@file"] by decide +kernel]
    simp

/-- A router of the provider `file` whose only parent does not exist. -/
def orphanRouters : Routers Unit :=
  Finmap.singleton "child@file" (mergeRouter ["web"] "file" (some ["missing"])
    ⟨[], [], "svc", "Path(`/x`)", [], "", 0, none, none, false, none⟩)

/-- A router whose only parent does not exist ends up without parents: it has become a
    root. -/
theorem orphan_becomes_root :
    (orphanRouters.lookup "child@file").map (·.parentRefs) = some ["missing@file"] ∧
    (applyModel ["child@file"] ["web@internal"] webModel orphanRouters "child@file").map
      (fun o => (o.source, o.router.parentRefs)) = some ("child@file", []) ∧
    ¬ Preserved orphanRouters (applyModel ["child@file"] ["web@internal"] webModel orphanRouters) := by
  have hin : (orphanRouters.lookup "child@file").map (·.parentRefs) = some ["missing@file"] := by
    decide +kernel
  have hout : (applyModel ["child@file"] ["web@internal"] webModel orphanRouters "child@file").map
      (fun o => (o.source, o.router.parentRefs)) = some ("child@file", []) := by
    decide +kernel
  refine ⟨hin, hout, fun h => ?_⟩
  obtain ⟨rt, hlook, hpar⟩ := map_eq_some_iff.mp hin
  obtain ⟨o, ho, hpair⟩ := map_eq_some_iff.mp hout
  obtain ⟨hsrc, hnone⟩ := Prod.mk.inj hpair
  have hroot := h.children _ o ho hnone rt (hsrc ▸ hlook)
  rw [hpar] at hroot
  cases hroot

end Ingress.EntryPointModels
