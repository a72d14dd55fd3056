import Ingress.Framework.DepthFirst
import Ingress.Framework.Outcome
import Ingress.Framework.Text
import Mathlib.Data.Finmap
import Mathlib.Data.String.Basic

/-! # The Router Tree

    `ParseRouterTree` of `pkg/server/router`: the routers that name parents become the
    children of these, a search from the routers without parents cuts the references that
    close a cycle, and what the search does not find is disabled.  The handlers are then
    built along the references that are left.

    The order in which the map of the routers is walked is a parameter.

    * `parseRouterTree`: the code.
    * `lookup_linked`: the children, in closed form.
    * `Follows`: the search of the code is the one of `DepthFirst`.
    * `parseRouterTree_sound`: the tree that is left. -/

open Function List Text

namespace Ingress.RouterTree

open Relation

/-! ## Routers -/

/-- The fields of a router of the dynamic configuration that are read here.  `tls` is the
    name of the TLS options. -/
structure Router where
  entryPoints : List String
  parentRefs : List String
  service : String
  rule : String
  ruleSyntax : String
  priority : Int
  tls : Option String
  observability : Bool
  deriving DecidableEq

/-- The status of a router. -/
inductive Status where
  | enabled
  | warning
  | disabled
  deriving DecidableEq, Repr

structure RouterInfo extends Router where
  err : List String
  status : Status
  childRefs : List String
  deriving DecidableEq

/-- A router as `NewConfig` makes it. -/
def Router.info (r : Router) : RouterInfo where
  toRouter := r
  err := []
  status := .enabled
  childRefs := []

def RouterInfo.addError (r : RouterInfo) (err : String) (critical : Bool) : RouterInfo :=
  if r.err.contains err then r
  else
    { r with
      err := r.err ++ [err]
      status := if critical then .disabled
        else if r.status = .disabled then .disabled else .warning }

abbrev Routers := Finmap fun _ : String => RouterInfo

/-- A change of the router of a name. -/
def modify (name : String) (change : RouterInfo → RouterInfo) (routers : Routers) : Routers :=
  match routers.lookup name with
  | some r => routers.insert name (change r)
  | none => routers

/-! ## The code

    `quote` is the verb `%q` of the formatted errors. -/

variable (quote : String → String)

/-- The turn of the loop over the parents of a router. -/
def linkParent (name : String) (routers : Routers) (parentName : String) : Routers :=
  if (routers.lookup parentName).isSome then
    modify parentName (fun parent =>
      if parent.childRefs.contains name then parent
      else { parent with childRefs := parent.childRefs ++ [name] }) routers
  else
    modify name (·.addError ("parent router " ++ quote parentName ++ " does not exist") true) routers

/-- The checks of a router that has parents. -/
def checkNonRoot (r : RouterInfo) : RouterInfo :=
  if r.tls.isSome then r.addError "non-root router cannot have TLS configuration" true
  else if r.observability then
    r.addError "non-root router cannot have Observability configuration" true
  else if !r.entryPoints.isEmpty then
    r.addError "non-root router cannot have Entrypoints configuration" true
  else r

/-- The turn of the first loop over the routers. -/
def linkRouter (routers : Routers) (name : String) : Routers :=
  match routers.lookup name with
  | none => routers
  | some router =>
    if router.parentRefs.isEmpty then routers
    else modify name checkNonRoot (router.parentRefs.foldl (linkParent quote name) routers)

/-- The routers, and what the search has marked. -/
structure TreeState where
  routers : Routers
  visited : String → Bool
  currentPath : String → Bool

/-- `handleCycle`: the last router of the path loses the victim. -/
def handleCycle (victimRouter : String) (path : List String) (st : TreeState) : TreeState :=
  if !path.contains victimRouter then st
  else
    let cyclePath := path.drop (path.idxOf victimRouter) ++ [victimRouter]
    match path.getLast? with
    | none => st
    | some guilty =>
      { st with routers := modify guilty (fun r =>
          let r := r.addError ("cyclic reference detected in router tree: " ++
            " -> ".intercalate cyclePath) false
          { r with childRefs := r.childRefs.erase victimRouter }) st.routers }

/-- `traverse`.  The paths of siblings share an array, but each is done before the next one
    writes behind the path of their parent. -/
def traverse : ℕ → List String → String → TreeState → Option TreeState
  | 0, _, _, _ => none
  | fuel + 1, path, routerName, st =>
    if st.currentPath routerName then some (handleCycle routerName path st)
    else if st.visited routerName then some st
    else
      match st.routers.lookup routerName with
      | none => some { st with visited := Function.update st.visited routerName true }
      | some router =>
        ((sortStrings router.childRefs).foldlM
          (fun st childName => traverse fuel (path ++ [routerName]) childName st)
          { st with
            visited := Function.update st.visited routerName true
            currentPath := Function.update st.currentPath routerName true }).map fun st =>
          { st with currentPath := Function.update st.currentPath routerName false }

/-- The error of a router that the search has not found. -/
def notReachable : String := "router is not reachable"

/-- The turn of the last loop over the routers. -/
def checkRouter (visited : Bool) (r : RouterInfo) : RouterInfo :=
  if !visited then r.addError notReachable true
  else if r.service.isEmpty && r.childRefs.isEmpty then
    r.addError "router has no service and no child routers" true
  else if !r.service.isEmpty && !r.childRefs.isEmpty then
    r.addError "router has both a service and is referenced as a parent by other routers" true
  else r

/-- The router has no parents. -/
def isRoot (routers : Routers) (name : String) : Bool :=
  (routers.lookup name).any (·.parentRefs.isEmpty)

/-- The loop over the roots. -/
def traverseRoots (fuel : ℕ) (rootRouters : List String) (st : TreeState) : Option TreeState :=
  rootRouters.foldlM
    (fun st rootName => if st.visited rootName then some st else traverse fuel [] rootName st) st

/-- The last loop over the routers. -/
def checkRouters (order : List String) (st : TreeState) : Routers :=
  order.foldl (fun routers name => modify name (checkRouter (st.visited name)) routers) st.routers

/-- `ParseRouterTree`, with the orders of the two loops over the map. -/
def parseRouterTree (order order' : List String) (fuel : ℕ) (routers : Routers) : Option Routers :=
  let linked := order.foldl (linkRouter quote) routers
  let rootRouters := sortStrings (order.filter (isRoot routers))
  (traverseRoots fuel rootRouters ⟨linked, fun _ => false, fun _ => false⟩).map (checkRouters order')

/-! ### Handlers -/

/-- A route of a muxer, with the router it is for. -/
structure Route (H : Type) where
  routerName : String
  rule : String
  ruleSyntax : String
  priority : Int
  handler : H

/-- What the handlers are built with: the check of the TLS options, the handler of a
    service, the middlewares around a handler, the error of the parser of the rules, and the
    muxer of the routes that were added.  The name of a router has its provider, by which the
    other names are qualified. -/
structure Builder (H : Type) where
  tlsError : String → Router → Option String
  buildService : String → Router → Except String H
  chain : String → Router → H → Except String H
  parse : (syntax_ rule : String) → Option String
  muxer : List (Route H) → H

def getRulePriority (rule : String) : Int := rule.utf8ByteSize

/-- The router with a priority. -/
def Router.setPriority (r : Router) : Router :=
  if r.priority = 0 then { r with priority := getRulePriority r.rule } else r

/-- The router of the configuration with a priority. -/
def RouterInfo.setPriority (r : RouterInfo) : RouterInfo :=
  { r with toRouter := r.toRouter.setPriority }

/-- The routers, and the handlers built so far. -/
structure BuildState (H : Type) where
  routers : Routers
  routerHandlers : String → Option H

variable {H : Type}

/-- The route to a router, with its rule and its priority. -/
def Router.route (r : Router) (routerName : String) (handler : H) : Route H :=
  ⟨routerName, r.rule, r.ruleSyntax, r.setPriority.priority, handler⟩

def addRoute (B : Builder H) (routes : List (Route H)) (route : Route H) :
    Except String (List (Route H)) :=
  match B.parse route.ruleSyntax route.rule with
  | some e => .error ("error while parsing rule " ++ route.rule ++ ": " ++ e)
  | none => .ok (routes ++ [route])

/-- The loop of `buildChildRoutersMuxer`, over the rest of the children. -/
def addChildren (B : Builder H)
    (build : String → RouterInfo → BuildState H → Option (Except String H × BuildState H)) (total : ℕ) :
    List String → List (Route H) → ℕ → BuildState H →
      Option (Except String (List (Route H)) × BuildState H)
  | [], routes, childCount, st =>
    if childCount = 0 then
      some (.error ("no child routers could be added to muxer (" ++ toString total ++ " skipped)"), st)
    else some (.ok routes, st)
  | childName :: rest, routes, childCount, st =>
    match st.routers.lookup childName with
    | none => some (.error ("child router " ++ quote childName ++ " does not exist"), st)
    | some childRouter =>
      if !childRouter.err.isEmpty then addChildren B build total rest routes childCount st
      else
        match build childName childRouter.setPriority
            { st with routers := modify childName RouterInfo.setPriority st.routers } with
        | none => none
        | some (.error e, st) =>
          addChildren B build total rest routes childCount
            { st with routers := modify childName (·.addError e true) st.routers }
        | some (.ok handler, st) =>
          match addRoute B routes (childRouter.route childName handler) with
          | .error e =>
            addChildren B build total rest routes childCount
              { st with routers := modify childName (·.addError e true) st.routers }
          | .ok routes => addChildren B build total rest routes (childCount + 1) st

/-- The routes of the muxer that `buildChildRoutersMuxer` builds. -/
def childRoutes (B : Builder H)
    (build : String → RouterInfo → BuildState H → Option (Except String H × BuildState H))
    (childRefs : List String) (st : BuildState H) :
    Option (Except String (List (Route H)) × BuildState H) :=
  addChildren quote B build childRefs.length childRefs [] 0 st

def buildChildRoutersMuxer (B : Builder H)
    (build : String → RouterInfo → BuildState H → Option (Except String H × BuildState H))
    (childRefs : List String) (st : BuildState H) : Option (Except String H × BuildState H) :=
  (childRoutes quote B build childRefs st).map fun (routes, st) => (routes.map B.muxer, st)

/-- The end of `buildHTTPHandler` and of `buildRouterHandler`. -/
def finishHandler (B : Builder H) (routerName : String) (router : Router) (st : BuildState H)
    (next : Except String H) : Except String H × BuildState H :=
  match next.bind (B.chain routerName router) with
  | .error e => (.error e, st)
  | .ok h => (.ok h, { st with routerHandlers := Function.update st.routerHandlers routerName (some h) })

/-- `buildRouterHandler`, with `buildHTTPHandler`. -/
def buildRouterHandler (B : Builder H) :
    ℕ → String → RouterInfo → BuildState H → Option (Except String H × BuildState H)
  | 0, _, _, _ => none
  | fuel + 1, routerName, router, st =>
    match st.routerHandlers routerName with
    | some handler => some (.ok handler, st)
    | none =>
      match B.tlsError routerName router.toRouter with
      | some e => some (.error ("building router handler: " ++ e), st)
      | none =>
        if !router.childRefs.isEmpty then
          (buildChildRoutersMuxer quote B (buildRouterHandler B fuel) router.childRefs st).map
            fun (next, st) => finishHandler B routerName router.toRouter st
              (next.mapError ("building child routers muxer: " ++ ·))
        else if !router.service.isEmpty then
          some (finishHandler B routerName router.toRouter st (B.buildService routerName router.toRouter))
        else some (.error "router must have either a service or child routers", st)

/-! ## Changes of one router -/

theorem lookup_modify (name : String) (change : RouterInfo → RouterInfo) (rs : Routers)
    (n : String) : (modify name change rs).lookup n =
      if n = name then (rs.lookup n).map change else rs.lookup n := by
  unfold modify
  by_cases heq : n = name
  · subst heq
    rw [if_pos rfl]
    split
    · next r hlook => rw [hlook, Finmap.lookup_insert, Option.map_some]
    · next hlook => rw [hlook, Option.map_none]
  · rw [if_neg heq]
    split
    · rw [Finmap.lookup_insert_of_ne _ heq]
    · rfl

theorem isSome_lookup_modify (name : String) (change : RouterInfo → RouterInfo) (rs : Routers)
    (n : String) : ((modify name change rs).lookup n).isSome = (rs.lookup n).isSome := by
  rw [lookup_modify]
  split <;> simp

/-- The router with other children. -/
def RouterInfo.withChildren (r : RouterInfo) (childRefs : List String) : RouterInfo :=
  { r with childRefs }

variable (r : RouterInfo)

@[simp] theorem withChildren_childRefs (cs : List String) :
    (r.withChildren cs).childRefs = cs := rfl

@[simp] theorem withChildren_toRouter (cs : List String) :
    (r.withChildren cs).toRouter = r.toRouter := rfl

@[simp] theorem withChildren_self : r.withChildren r.childRefs = r := rfl

@[simp] theorem withChildren_withChildren (cs cs' : List String) :
    (r.withChildren cs).withChildren cs' = r.withChildren cs' := rfl

open RouterInfo

@[simp] theorem addError_withChildren (cs : List String) (err : String) (critical : Bool) :
    (r.withChildren cs).addError err critical = (r.addError err critical).withChildren cs := by
  unfold addError
  show (if r.err.contains err then _ else _) = _
  split <;> rfl

@[simp] theorem addError_toRouter (err : String) (critical : Bool) :
    (r.addError err critical).toRouter = r.toRouter := by
  unfold addError
  split <;> rfl

@[simp] theorem addError_childRefs (err : String) (critical : Bool) :
    (r.addError err critical).childRefs = r.childRefs := by
  unfold addError
  split <;> rfl

theorem mem_addError (err : String) (critical : Bool) (e : String) :
    e ∈ (r.addError err critical).err ↔ e ∈ r.err ∨ e = err := by
  unfold addError
  split
  · next hcont =>
    constructor
    · exact .inl
    · rintro (hmem | rfl)
      · exact hmem
      · exact contains_iff_mem.mp hcont
  · simp

theorem checkNonRoot_withChildren (cs : List String) :
    checkNonRoot (r.withChildren cs) = (checkNonRoot r).withChildren cs := by
  unfold checkNonRoot
  simp only [withChildren_toRouter, addError_withChildren]
  split
  · rfl
  · split
    · rfl
    · split <;> rfl

/-! ## The children -/

/-- The errors of the parents that do not exist. -/
def parentErrors (known : String → Bool) (parents : List String) (r : RouterInfo) : RouterInfo :=
  parents.foldl (fun r p =>
    if known p then r else r.addError ("parent router " ++ quote p ++ " does not exist") true) r

/-- What the first loop does to the errors of a router. -/
def ownErrors (known : String → Bool) (r : RouterInfo) : RouterInfo :=
  if r.parentRefs.isEmpty then r else checkNonRoot (parentErrors quote known r.parentRefs r)

/-- The router names the parent. -/
def isChild (routers : Routers) (parent name : String) : Bool :=
  (routers.lookup name).any (·.parentRefs.contains parent)

/-- The router exists. -/
def known (routers : Routers) (name : String) : Bool :=
  (routers.lookup name).isSome

variable {quote}

theorem parentErrors_withChildren (known : String → Bool) (parents : List String) (r : RouterInfo)
    (cs : List String) : parentErrors quote known parents (r.withChildren cs) =
      (parentErrors quote known parents r).withChildren cs := by
  induction parents generalizing r with
  | nil => rfl
  | cons p parents ih =>
    simp only [parentErrors, foldl_cons] at ih ⊢
    split
    · exact ih r
    · rw [addError_withChildren]
      exact ih _

theorem ownErrors_withChildren (known : String → Bool) (r : RouterInfo) (cs : List String) :
    ownErrors quote known (r.withChildren cs) = (ownErrors quote known r).withChildren cs := by
  simp only [ownErrors, withChildren_toRouter, parentErrors_withChildren, checkNonRoot_withChildren]
  split <;> rfl

/-- The children with another one, unless it is there. -/
def addChild (name : String) (childRefs : List String) : List String :=
  if childRefs.contains name then childRefs else childRefs ++ [name]

@[simp] theorem addChild_addChild (name : String) (childRefs : List String) :
    addChild name (addChild name childRefs) = addChild name childRefs := by
  by_cases hmem : name ∈ childRefs <;> simp [addChild, hmem]

theorem lookup_linkParent (name : String) (rs : Routers) (p n : String) :
    (linkParent quote name rs p).lookup n = (rs.lookup n).map fun r =>
      (if n = name then parentErrors quote (known rs) [p] r else r).withChildren
        (if n = p then addChild name r.childRefs else r.childRefs) := by
  unfold linkParent
  cases hlook : rs.lookup n with
  | none =>
    split <;> rw [lookup_modify, hlook] <;> simp
  | some r =>
    split
    · next hknown =>
      have herrors : ∀ r, parentErrors quote (known rs) [p] r = r := fun r => by
        simp [parentErrors, known, hknown]
      rw [lookup_modify, hlook]
      simp only [Option.map_some, herrors, ite_self]
      split
      · simp only [Option.some.injEq, addChild]
        split <;> rfl
      · rfl
    · next hknown =>
      have hne : n ≠ p := by
        rintro rfl
        exact hknown (by rw [hlook]; rfl)
      have herrors : parentErrors quote (known rs) [p] r =
          r.addError ("parent router " ++ quote p ++ " does not exist") true := by
        simp [parentErrors, known, hknown]
      rw [lookup_modify, hlook]
      simp only [Option.map_some, herrors, if_neg hne]
      split
      · rw [← addError_withChildren, withChildren_self]
      · rfl

theorem known_linkParent (name : String) (routers : Routers) (p : String) :
    known (linkParent quote name routers p) = known routers := by
  funext n
  rw [known, lookup_linkParent, known, Option.isSome_map]

/-- The loop over the parents of a router: it becomes a child of those that exist, and has
    an error for the others. -/
theorem lookup_linkParents (name : String) (parents : List String) (rs : Routers) (n : String) :
    (parents.foldl (linkParent quote name) rs).lookup n = (rs.lookup n).map fun r =>
      (if n = name then parentErrors quote (known rs) parents r else r).withChildren
        (if parents.contains n then addChild name r.childRefs else r.childRefs) := by
  induction parents generalizing rs with
  | nil => simp [parentErrors]
  | cons p parents ih =>
    rw [foldl_cons, ih, known_linkParent, lookup_linkParent, Option.map_map]
    congr 1
    funext r
    have herrors : parentErrors quote (known rs) (p :: parents) r =
        parentErrors quote (known rs) parents (parentErrors quote (known rs) [p] r) := rfl
    have hkids : (if parents.contains n then
          addChild name (if n = p then addChild name r.childRefs else r.childRefs)
        else if n = p then addChild name r.childRefs else r.childRefs) =
        if (p :: parents).contains n then addChild name r.childRefs else r.childRefs := by
      by_cases hp : n = p <;> by_cases hmem : n ∈ parents <;> simp [hp, hmem]
    simp only [comp_apply, withChildren_childRefs, hkids, herrors]
    split
    · rw [parentErrors_withChildren, withChildren_withChildren]
    · rfl

/-- A turn of the first loop: the router becomes a child of its parents. -/
theorem lookup_linkRouter (routers : Routers) (name n : String) :
    (linkRouter quote routers name).lookup n = (routers.lookup n).map fun r =>
      (if n = name then ownErrors quote (known routers) r else r).withChildren
        (if isChild routers n name then addChild name r.childRefs else r.childRefs) := by
  by_cases hroot : ∀ r, routers.lookup name = some r → r.parentRefs = []
  · -- a router without parents changes nothing
    have hskip : linkRouter quote routers name = routers := by
      unfold linkRouter
      cases hr : routers.lookup name with
      | none => rfl
      | some r => simp [hroot r hr]
    have hchild : isChild routers n name = false := by
      cases hr : routers.lookup name with
      | none => simp [isChild, hr]
      | some r => simp [isChild, hr, hroot r hr]
    rw [hskip]
    cases hr : routers.lookup n with
    | none => rfl
    | some r =>
      by_cases hn : n = name
      · subst hn
        simp [hchild, ownErrors, hroot r hr]
      · simp [hchild, hn]
  · obtain ⟨r₀, hlook, hempty⟩ : ∃ r₀, routers.lookup name = some r₀ ∧ r₀.parentRefs ≠ [] := by
      simpa using hroot
    have hchild : isChild routers n name = r₀.parentRefs.contains n := by simp [isChild, hlook]
    unfold linkRouter
    rw [hlook]
    dsimp only
    rw [if_neg (by simpa using hempty), lookup_modify, lookup_linkParents, hchild]
    by_cases hn : n = name
    · subst hn
      rw [if_pos rfl, hlook]
      simp [checkNonRoot_withChildren, ownErrors, hempty]
    · simp [hn]

variable {order : List String}

/-- **The first loop** over the routers, in closed form: the children of a router are
    those that name it, in the order of the loop. -/
theorem lookup_linked {routers : Routers} (hfresh : ∀ n r, routers.lookup n = some r → r.childRefs = [])
    (hnd : order.Nodup) (n : String) :
    (order.foldl (linkRouter quote) routers).lookup n = (routers.lookup n).map fun r =>
      (if order.contains n then ownErrors quote (known routers) r else r).withChildren
        (order.filter (isChild routers n)) := by
  induction order using reverseRecOn generalizing n with
  | nil =>
    cases hlook : routers.lookup n with
    | none => simp [hlook]
    | some r =>
      have hsame : r.withChildren [] = r := by
        rw [← hfresh n r hlook]
        rfl
      simp [hlook, hsame]
  | append_singleton order name ih =>
    obtain ⟨hnd, hnew⟩ : order.Nodup ∧ name ∉ order := by
      rw [nodup_append_comm] at hnd
      exact (nodup_cons.mp hnd).symm
    replace ih := ih hnd
    have hknown : known (order.foldl (linkRouter quote) routers) = known routers := by
      funext k
      rw [known, ih, known, Option.isSome_map]
    have hchild : isChild (order.foldl (linkRouter quote) routers) n name = isChild routers n name := by
      cases hlook : routers.lookup name <;> simp [isChild, ih, hnew, hlook, withChildren]
    rw [foldl_concat, lookup_linkRouter, hknown, hchild, ih, Option.map_map]
    congr 1
    funext r
    have hkids : (if isChild routers n name then addChild name (order.filter (isChild routers n))
        else order.filter (isChild routers n)) = (order ++ [name]).filter (isChild routers n) := by
      cases hc : isChild routers n name <;> simp [addChild, hnew, hc]
    by_cases hn : n = name
    · subst hn
      simp [hnew, ownErrors_withChildren, hkids]
    · simp [hn, hkids]

/-! ## The search -/

variable {n : String}

/-- The children of a router, as the search goes through them. -/
def adj (linked : Routers) (name : String) : List String :=
  sortStrings ((linked.lookup name).elim [] RouterInfo.childRefs)

/-- The children exist, and none is listed twice. -/
structure Linked (linked : Routers) : Prop where
  nodup : ∀ n r, linked.lookup n = some r → r.childRefs.Nodup
  exist : ∀ n r, linked.lookup n = some r → ∀ c ∈ r.childRefs, (linked.lookup c).isSome = true

theorem Linked.adj_exist {linked : Routers} (h : Linked linked) {c : String} (hc : c ∈ adj linked n) :
    (linked.lookup c).isSome = true := by
  unfold adj at hc
  cases hlook : linked.lookup n with
  | none => simp [hlook] at hc
  | some r => exact h.exist n r hlook c (by simpa [hlook] using hc)

/-- What the search does to a router: it loses children, and has errors of cycles. -/
structure Cut (back : List (String × String)) (name : String) (r₀ r : RouterInfo) : Prop where
  router : r.toRouter = r₀.toRouter
  childRefs : r.childRefs = r₀.childRefs.filter fun c => !back.contains (name, c)
  reachable : notReachable ∈ r.err → notReachable ∈ r₀.err

/-- The search of the code has come as far as `d`. -/
structure Follows (linked : Routers) (path : List String) (st : TreeState)
    (d : DepthFirst.State String) : Prop where
  visited : ∀ n, st.visited n = true ↔ n ∈ d.finished ++ path
  current : ∀ n, st.currentPath n = true ↔ n ∈ path
  exist : ∀ n, (st.routers.lookup n).isSome = (linked.lookup n).isSome
  cut : ∀ n r₀ r, linked.lookup n = some r₀ → st.routers.lookup n = some r → Cut d.back n r₀ r

variable {linked : Routers} {path : List String} {st : TreeState} {d d' : DepthFirst.State String}
  {name : String} {fuel : ℕ}

theorem cycle_ne_notReachable (text : String) :
    notReachable ≠ "cyclic reference detected in router tree: " ++ text := by
  intro heq
  have hlist := congrArg String.toList heq
  simp [notReachable] at hlist

theorem notReachable_addError {r : RouterInfo} {err : String} (h : notReachable ∉ r.err)
    (hne : notReachable ≠ err) (critical : Bool) : notReachable ∉ (r.addError err critical).err := by
  rw [mem_addError]
  exact not_or.mpr ⟨h, hne⟩

/-- A reference that closes a cycle is cut. -/
theorem follows_handleCycle (hlinked : Linked linked) (h : Follows linked path st d)
    {guilty : String} (hname : name ∈ path) (hlast : path.getLast? = some guilty) :
    Follows linked path (handleCycle name path st)
      { d with back := d.back ++ [(guilty, name)] } := by
  unfold handleCycle
  rw [if_neg (by simp [hname]), hlast]
  refine ⟨h.visited, h.current, ?_, ?_⟩
  · intro n
    rw [isSome_lookup_modify, h.exist]
  · intro n r₀ r hr₀ hr
    rw [lookup_modify] at hr
    by_cases hn : n = guilty
    · subst hn
      rw [if_pos rfl] at hr
      obtain ⟨r₁, hr₁, rfl⟩ := Option.map_eq_some_iff.mp hr
      have hcut := h.cut n r₀ r₁ hr₀ hr₁
      refine ⟨?_, ?_, ?_⟩
      · simp [hcut.router]
      · have hnd : r₁.childRefs.Nodup := by
          rw [hcut.childRefs]
          exact (hlinked.nodup n r₀ hr₀).filter _
        simp only [addError_childRefs]
        rw [hnd.erase_eq_filter, hcut.childRefs, filter_filter]
        congr 1
        funext c
        by_cases hc : c = name <;> simp [hc]
      · intro hmem
        rcases (mem_addError ..).mp hmem with hmem | heq
        · exact hcut.reachable hmem
        · exact absurd heq (cycle_ne_notReachable _)
    · rw [if_neg hn] at hr
      have hcut := h.cut n r₀ r hr₀ hr
      refine { hcut with childRefs := ?_ }
      rw [hcut.childRefs]
      congr 1
      funext c
      simp [hn]

open DepthFirst

/-- **The search of the code is a depth-first search.** -/
theorem traverse_follows (hlinked : Linked linked) (h : Follows linked path st d)
    (hok : DepthFirst.Ok (adj linked) path d) (hexist : (linked.lookup name).isSome = true)
    (hedge : ∀ g, path.getLast? = some g → name ∈ adj linked g)
    (hvisit : visit (adj linked) fuel path name d = some d') :
    ∃ st', traverse fuel path name st = some st' ∧ Follows linked path st' d' := by
  induction fuel generalizing path name st d d' with
  | zero => cases hvisit
  | succ fuel ih =>
    rw [traverse]
    rcases visit_cases hvisit with ⟨hpath, rfl⟩ | ⟨hpath, hfin, rfl⟩ |
      ⟨hpath, hfin, d₁, hall, rfl⟩
    · rw [if_pos ((h.current name).mpr hpath)]
      obtain ⟨guilty, hlast⟩ : ∃ guilty, path.getLast? = some guilty :=
        ⟨_, getLast?_eq_some_getLast (ne_nil_of_mem hpath)⟩
      refine ⟨_, rfl, ?_⟩
      simpa [hlast] using follows_handleCycle hlinked h hpath hlast
    · rw [if_neg (fun hc => hpath ((h.current name).mp hc)),
        if_pos ((h.visited name).mpr (mem_append_left _ hfin))]
      exact ⟨st, rfl, h⟩
    · have hnew : name ∉ d.finished ++ path := by simp [hpath, hfin]
      rw [if_neg (fun hc => hpath ((h.current name).mp hc)),
        if_neg (fun hv => hnew ((h.visited name).mp hv))]
      obtain ⟨r₀, hr₀⟩ := Option.isSome_iff_exists.mp hexist
      obtain ⟨r, hr⟩ : ∃ r, st.routers.lookup name = some r :=
        Option.isSome_iff_exists.mp ((h.exist name).trans hexist)
      -- no reference of a router that was not visited has been cut
      have hkids : sortStrings r.childRefs = adj linked name := by
        have hall : r.childRefs = r₀.childRefs := by
          rw [(h.cut name r₀ r hr₀ hr).childRefs, filter_eq_self]
          intro c _
          have hkept : (name, c) ∉ d.back := fun hback => hnew (hok.edge name c hback).2.1
          simp [hkept]
        rw [hall, adj, hr₀]
        rfl
      rw [hr]
      dsimp only
      rw [hkids]
      have hpush : Follows linked (path ++ [name]) { st with
          visited := update st.visited name true
          currentPath := update st.currentPath name true } d := by
        refine ⟨fun n => ?_, fun n => ?_, h.exist, h.cut⟩
        · by_cases hn : n = name
          · simp [hn]
          · have hvisited := h.visited n
            simp [hvisited, hn]
        · by_cases hn : n = name
          · simp [hn]
          · simp [h.current n, hn]
      obtain ⟨st₁, hst₁, h₁, -⟩ := Outcome.foldlM_sim (g := fun st u => traverse fuel _ u st)
        (R := fun d st => Follows linked (path ++ [name]) st d ∧ Ok (adj linked) (path ++ [name]) d)
        ⟨hpush, hok.push hpath hfin⟩ hall (by
          rintro u hu d st d' ⟨hf, ho⟩ hv
          have hedge : ∀ g, (path ++ [name]).getLast? = some g → u ∈ adj linked g := by
            intro g hg
            rwa [← show name = g by simpa using hg]
          obtain ⟨st', hst', hf'⟩ := ih hf ho (hlinked.adj_exist hu) hedge hv
          obtain ⟨_, hstep⟩ := visit_step ho hedge hv
          exact ⟨st', hst', hf', hstep.ok⟩)
      rw [hst₁]
      refine ⟨_, rfl, fun n => ?_, fun n => ?_, h₁.exist, h₁.cut⟩
      · show st₁.visited n = true ↔ _
        rw [h₁.visited]
        simp only [mem_append, mem_singleton]
        tauto
      · by_cases hn : n = name
        · simp [hn, hpath]
        · simp [h₁.current n, hn]

theorem follows_start (linked : Routers) :
    Follows linked [] ⟨linked, fun _ => false, fun _ => false⟩ .start := by
  refine ⟨fun n => by simp [DepthFirst.State.start], fun n => by simp, fun n => rfl, ?_⟩
  intro n r₀ r hr₀ hr
  obtain rfl : r₀ = r := Option.some.inj (hr₀.symm.trans hr)
  exact ⟨rfl, by simp [DepthFirst.State.start], fun h => h⟩

/-- The search from the roots. -/
theorem traverseRoots_follows (hlinked : Linked linked) {roots : List String}
    (h : Follows linked [] st d) (hok : DepthFirst.Ok (adj linked) [] d)
    (hexist : ∀ r ∈ roots, (linked.lookup r).isSome = true)
    (hall : visitAll (adj linked) fuel [] roots d = some d') :
    ∃ st', traverseRoots fuel roots st = some st' ∧ Follows linked [] st' d' := by
  obtain ⟨st', hst', h', -⟩ := Outcome.foldlM_sim
    (g := fun st root => if st.visited root then some st else traverse fuel [] root st)
    (R := fun d st => Follows linked [] st d ∧ Ok (adj linked) [] d) ⟨h, hok⟩ hall (by
      rintro root hroot d st d₁ ⟨h, hok⟩ hd₁
      obtain ⟨_, hstep⟩ := visit_step hok nofun hd₁
      split
      · next hvisited =>
        have hfin : root ∈ d.finished := by simpa using (h.visited root).mp hvisited
        match fuel, hd₁ with
        | fuel + 1, hd₁ =>
          rcases visit_cases hd₁ with ⟨hpath, -⟩ | ⟨-, -, rfl⟩ | ⟨-, hnot, -⟩
          · cases hpath
          · exact ⟨st, rfl, h, hok⟩
          · exact absurd hfin hnot
      · obtain ⟨st₁, hst₁, h₁⟩ := traverse_follows hlinked h hok (hexist root hroot) nofun hd₁
        exact ⟨st₁, hst₁, h₁, hstep.ok⟩)
  exact ⟨st', hst', h'⟩

/-- **The last loop** over the routers. -/
theorem lookup_checkRouters (hnd : order.Nodup) (st : TreeState) (n : String) :
    (checkRouters order st).lookup n =
      if n ∈ order then (st.routers.lookup n).map (checkRouter (st.visited n))
      else st.routers.lookup n := by
  induction order using reverseRecOn with
  | nil => rfl
  | append_singleton order name ih =>
    obtain ⟨hnd, hnew⟩ : order.Nodup ∧ name ∉ order := by
      rw [nodup_append_comm] at hnd
      exact (nodup_cons.mp hnd).symm
    replace ih := ih hnd
    unfold checkRouters at ih ⊢
    rw [foldl_concat, lookup_modify, ih]
    by_cases hn : n = name
    · subst hn
      simp [hnew]
    · simp [hn]

@[simp] theorem checkRouter_childRefs (visited : Bool) (r : RouterInfo) :
    (checkRouter visited r).childRefs = r.childRefs := by
  unfold checkRouter
  split
  · simp
  · split
    · simp
    · split <;> simp

/-- The error of a router that was not found. -/
theorem mem_checkRouter {visited : Bool} {r : RouterInfo} (hnew : notReachable ∉ r.err) :
    (notReachable ∈ (checkRouter visited r).err ↔ visited = false) ∧
      (notReachable ∈ (checkRouter visited r).err → (checkRouter visited r).status = .disabled) := by
  cases visited with
  | false =>
    have hcont : ¬ r.err.contains notReachable = true := by simpa using hnew
    have hcheck : checkRouter false r = r.addError notReachable true := rfl
    rw [hcheck]
    refine ⟨⟨fun _ => rfl, fun _ => (mem_addError ..).mpr (.inr rfl)⟩, fun _ => ?_⟩
    rw [addError, if_neg hcont]
    rfl
  | true =>
    have hnot : notReachable ∉ (checkRouter true r).err := by
      unfold checkRouter
      rw [if_neg (by simp)]
      split
      · exact notReachable_addError hnew (by decide) _
      · split
        · exact notReachable_addError hnew (by decide) _
        · exact hnew
    exact ⟨⟨fun h => absurd h hnot, nofun⟩, fun h => absurd h hnot⟩

/-! ## The tree -/

/-- The list has the names of all routers, each once. -/
structure Enumerates (order : List String) (routers : Routers) : Prop where
  nodup : order.Nodup
  mem : ∀ n, n ∈ order ↔ (routers.lookup n).isSome = true

/-- The routers are as `NewConfig` makes them. -/
def Fresh (routers : Routers) : Prop :=
  ∀ n r, routers.lookup n = some r → r = r.toRouter.info

/-- The parent exists and is named by the router. -/
def Parent (routers : Routers) (parent name : String) : Prop :=
  (routers.lookup parent).isSome = true ∧ isChild routers parent name = true

/-- The reference to the child is there. -/
def Child (routers : Routers) (parent name : String) : Prop :=
  ∃ r, routers.lookup parent = some r ∧ name ∈ r.childRefs

/-- A router without parents leads to the router. -/
def Reached (routers : Routers) (edge : String → String → Prop) (name : String) : Prop :=
  ∃ root, isRoot routers root = true ∧ ReflTransGen edge root name

variable {routers : Routers} {order : List String}

theorem isChild_exist {parent name : String} (h : isChild routers parent name = true) :
    (routers.lookup name).isSome = true :=
  Option.isSome_of_any h

theorem isRoot_exist {name : String} (h : isRoot routers name = true) :
    (routers.lookup name).isSome = true :=
  Option.isSome_of_any h

section Linked

variable (hfresh : Fresh routers) (horder : Enumerates order routers)
include hfresh horder

theorem lookup_linked_fresh (quote : String → String) (n : String) :
    (order.foldl (linkRouter quote) routers).lookup n = (routers.lookup n).map fun r =>
      (ownErrors quote (known routers) r).withChildren (order.filter (isChild routers n)) := by
  rw [lookup_linked (fun n r hr => by rw [hfresh n r hr]; rfl) horder.nodup]
  refine Option.map_congr fun r hr => ?_
  have hmem : n ∈ order := (horder.mem n).mpr (by rw [hr]; rfl)
  simp [hmem]

theorem linked_linked (quote : String → String) : Linked (order.foldl (linkRouter quote) routers) := by
  have hlook := lookup_linked_fresh hfresh horder quote
  constructor
  · intro n r hr
    rw [hlook] at hr
    obtain ⟨r₀, -, rfl⟩ := Option.map_eq_some_iff.mp hr
    exact horder.nodup.filter _
  · intro n r hr c hc
    rw [hlook] at hr
    obtain ⟨r₀, -, rfl⟩ := Option.map_eq_some_iff.mp hr
    rw [hlook, Option.isSome_map]
    exact isChild_exist (mem_filter.mp hc).2

theorem mem_adj_linked (quote : String → String) {parent name : String} :
    name ∈ adj (order.foldl (linkRouter quote) routers) parent ↔ Parent routers parent name := by
  rw [adj, mem_sortStrings, lookup_linked_fresh hfresh horder quote]
  cases hlook : routers.lookup parent with
  | none => simp [Parent, hlook]
  | some r =>
    simp only [Option.map_some, Option.elim_some, withChildren_childRefs, mem_filter, Parent,
      hlook, Option.isSome_some, true_and, and_iff_right_iff_imp]
    exact fun hchild => (horder.mem name).mpr (isChild_exist hchild)

end Linked

theorem notReachable_parentErrors (known : String → Bool) (parents : List String) {r : RouterInfo}
    (h : notReachable ∉ r.err) : notReachable ∉ (parentErrors quote known parents r).err := by
  induction parents generalizing r with
  | nil => exact h
  | cons p parents ih =>
    simp only [parentErrors, foldl_cons] at ih ⊢
    split
    · exact ih h
    · refine ih (notReachable_addError h (fun heq => ?_) true)
      have hlist := congrArg String.toList heq
      simp [notReachable] at hlist

/-- The first loop finds no router unreachable. -/
theorem notReachable_ownErrors (known : String → Bool) {r : RouterInfo} (h : notReachable ∉ r.err) :
    notReachable ∉ (ownErrors quote known r).err := by
  unfold ownErrors
  split
  · exact h
  · have hpar := @notReachable_parentErrors quote known r.parentRefs r h
    unfold checkNonRoot
    split
    · exact notReachable_addError hpar (by decide) _
    · split
      · exact notReachable_addError hpar (by decide) _
      · split
        · exact notReachable_addError hpar (by decide) _
        · exact hpar

/-- What `ParseRouterTree` leaves, in terms of a depth-first search. -/
structure Parsed (routers t : Routers) (A : String → List String) (d : DepthFirst.State String) :
    Prop where
  parent : ∀ p c, c ∈ A p ↔ Parent routers p c
  ok : DepthFirst.Ok A [] d
  finished : ∀ n, n ∈ d.finished ↔ Reached routers (Parent routers) n
  down : ∀ n ∈ d.finished, Reached routers (DepthFirst.Kept A d.finished) n
  exist : ∀ n, (t.lookup n).isSome = (routers.lookup n).isSome
  child : ∀ p c, Child t p c ↔ Parent routers p c ∧ (p, c) ∉ d.back
  error : ∀ n r, t.lookup n = some r → (notReachable ∈ r.err ↔ n ∉ d.finished) ∧
    (notReachable ∈ r.err → r.status = .disabled)

theorem mem_roots (hord : Enumerates order routers) (n : String) :
    n ∈ sortStrings (order.filter (isRoot routers)) ↔ isRoot routers n = true := by
  rw [mem_sortStrings, mem_filter, and_iff_right_iff_imp]
  exact fun hroot => (hord.mem n).mpr (isRoot_exist hroot)

/-- **`ParseRouterTree` ends**, and what it leaves. -/
theorem parseRouterTree_parsed (quote : String → String) {order' : List String} (hfresh : Fresh routers)
    (hord : Enumerates order routers) (hord' : Enumerates order' routers)
    (hfuel : order.length < fuel) :
    ∃ t d, parseRouterTree quote order order' fuel routers = some t ∧
      Parsed routers t (adj (order.foldl (linkRouter quote) routers)) d := by
  have hlook := lookup_linked_fresh hfresh hord quote
  have hlinked := linked_linked hfresh hord quote
  have hadj := @mem_adj_linked _ _ hfresh hord quote
  have hroots := mem_roots hord
  dsimp only [parseRouterTree]
  generalize order.foldl (linkRouter quote) routers = linked at hlook hlinked hadj ⊢
  generalize sortStrings (order.filter (isRoot routers)) = roots at hroots ⊢
  -- there is fuel for all routers
  have hsome : (visitAll (adj linked) fuel [] roots .start).isSome = true := by
    refine @DepthFirst.search_isSome _ _ _ _ _ order.toFinset ?_ ?_ ?_
    · intro a _ b hb
      rw [mem_toFinset, hord.mem]
      exact isChild_exist (hadj.mp hb).2
    · intro r hr
      rw [mem_toFinset, hord.mem]
      exact isRoot_exist ((hroots r).mp hr)
    · rwa [toFinset_card_of_nodup hord.nodup]
  obtain ⟨d, hd⟩ := Option.isSome_iff_exists.mp hsome
  have hexist : ∀ r ∈ roots, (linked.lookup r).isSome = true := by
    intro r hr
    rw [hlook, Option.isSome_map]
    exact isRoot_exist ((hroots r).mp hr)
  obtain ⟨st, hst, hfollows⟩ :=
    traverseRoots_follows hlinked (follows_start linked) ok_start hexist hd
  have hstep := search_step hd
  have hsame : ∀ n, (st.routers.lookup n).isSome = (routers.lookup n).isSome := by
    intro n
    rw [hfollows.exist, hlook, Option.isSome_map]
  have hcheck : ∀ n, (checkRouters order' st).lookup n =
      (st.routers.lookup n).map (checkRouter (st.visited n)) := by
    intro n
    rw [lookup_checkRouters hord'.nodup]
    split
    · rfl
    · next hnot =>
      rw [hord'.mem, ← hsame, Bool.not_eq_true, Option.isSome_eq_false_iff,
        Option.isNone_iff_eq_none] at hnot
      rw [hnot]
      rfl
  have hexists : ∀ n, ((checkRouters order' st).lookup n).isSome = (routers.lookup n).isSome := by
    intro n
    rw [hcheck, Option.isSome_map, hsame]
  -- the routers before and after the search
  have hcut : ∀ n r, (checkRouters order' st).lookup n = some r → ∃ r₀ r₁,
      routers.lookup n = some r₀ ∧ Cut d.back n ((ownErrors quote (known routers) r₀).withChildren
        (order.filter (isChild routers n))) r₁ ∧ r = checkRouter (st.visited n) r₁ := by
    intro n r hr
    rw [hcheck] at hr
    obtain ⟨r₁, hr₁, rfl⟩ := Option.map_eq_some_iff.mp hr
    obtain ⟨r₀, hr₀⟩ := Option.isSome_iff_exists.mp ((hsame n).symm.trans (by rw [hr₁]; rfl))
    exact ⟨r₀, r₁, hr₀, hfollows.cut n _ r₁ (by rw [hlook, hr₀]; rfl) hr₁, rfl⟩
  refine ⟨checkRouters order' st, d, by rw [hst]; rfl, fun p c => hadj, hstep.ok, ?_, ?_, hexists,
    ?_, ?_⟩
  · intro n
    rw [mem_finished_iff hd]
    constructor
    · rintro ⟨r, hr, hway⟩
      exact ⟨r, (hroots r).mp hr, hway.lift id fun _ _ => hadj.mp⟩
    · rintro ⟨r, hr, hway⟩
      exact ⟨r, (hroots r).mpr hr, hway.lift id fun _ _ => hadj.mpr⟩
  · intro n hn
    obtain ⟨r, hr, -, hway⟩ := hstep.down n hn
    exact ⟨r, (hroots r).mp hr, hway⟩
  · intro p c
    have hchildRefs : ∀ r, (checkRouters order' st).lookup p = some r →
        (c ∈ r.childRefs ↔ c ∈ order ∧ (p, c) ∉ d.back ∧ isChild routers p c = true) := by
      intro r hr
      obtain ⟨r₀, r₁, -, hcut, rfl⟩ := hcut p r hr
      simp [hcut.childRefs]
    constructor
    · rintro ⟨r, hr, hc⟩
      obtain ⟨-, hback, hchild⟩ := (hchildRefs r hr).mp hc
      exact ⟨⟨by rw [← hexists, hr]; rfl, hchild⟩, hback⟩
    · rintro ⟨⟨hp, hchild⟩, hback⟩
      obtain ⟨r, hr⟩ := Option.isSome_iff_exists.mp ((hexists p).trans hp)
      exact ⟨r, hr, (hchildRefs r hr).mpr
        ⟨(hord.mem c).mpr (isChild_exist hchild), hback, hchild⟩⟩
  · intro n r hr
    obtain ⟨r₀, r₁, hr₀, hcut, rfl⟩ := hcut n r hr
    have hfirst : notReachable ∉ r₁.err := by
      intro hmem
      refine notReachable_ownErrors (known routers) ?_ (hcut.reachable hmem)
      rw [hfresh n r₀ hr₀]
      exact not_mem_nil
    obtain ⟨hiff, hstat⟩ := mem_checkRouter hfirst
    refine ⟨hiff.trans ?_, hstat⟩
    rw [← Bool.not_eq_true, not_iff_not]
    simpa using hfollows.visited n

/-! ### What is left of the references -/

section Parsed

variable {t : Routers} {A : String → List String} (h : Parsed routers t A d)
include h

theorem Parsed.child_of_kept {p c : String} (hkept : DepthFirst.Kept A d.finished p c) : Child t p c := by
  obtain ⟨hp, hc, hlt⟩ := hkept
  refine (h.child p c).mpr ⟨(h.parent p c).mp hc, fun hback => ?_⟩
  exact (h.ok.settled p hp c hc).mp hback hlt

theorem Parsed.kept_of_child {p c : String} (hp : p ∈ d.finished) (hchild : Child t p c) :
    DepthFirst.Kept A d.finished p c ∧ c ∈ d.finished := by
  obtain ⟨hparent, hback⟩ := (h.child p c).mp hchild
  have hc := (h.parent p c).mpr hparent
  have hlt : d.finished.idxOf c < d.finished.idxOf p := by
    by_contra hge
    exact hback ((h.ok.settled p hp c hc).mpr hge)
  exact ⟨⟨hp, hc, hlt⟩, by simpa using h.ok.neighbour hp hc⟩

/-- Every router is still reached. -/
theorem Parsed.reached_iff (n : String) :
    Reached routers (Child t) n ↔ Reached routers (Parent routers) n := by
  constructor
  · rintro ⟨root, hroot, hway⟩
    exact ⟨root, hroot, hway.lift id fun p c hchild => ((h.child p c).mp hchild).1⟩
  · intro hreached
    obtain ⟨root, hroot, hway⟩ := h.down n ((h.finished n).mpr hreached)
    exact ⟨root, hroot, hway.lift id fun _ _ => h.child_of_kept⟩

/-- There is no cycle among the routers that are reached. -/
theorem Parsed.acyclic (hreached : Reached routers (Child t) n) : ¬ TransGen (Child t) n n := by
  have hn : n ∈ d.finished := (h.finished n).mpr ((h.reached_iff n).mp hreached)
  have hlift : ∀ {m}, TransGen (Child t) n m →
      TransGen (DepthFirst.Kept A d.finished) n m ∧ m ∈ d.finished := by
    intro m hway
    induction hway with
    | single hchild =>
      obtain ⟨hkept, hm⟩ := h.kept_of_child hn hchild
      exact ⟨.single hkept, hm⟩
    | tail _ hchild ih =>
      obtain ⟨hkept, hm⟩ := h.kept_of_child ih.2 hchild
      exact ⟨ih.1.tail hkept, hm⟩
  exact fun hcycle => not_transGen_kept d.finished n (hlift hcycle).1

/-- A reference that was cut closes a cycle. -/
theorem Parsed.cut_closes {p c : String} (hparent : Parent routers p c) (hcut : ¬ Child t p c) :
    Reached routers (Child t) c ∧ ReflTransGen (Child t) c p := by
  have hback : (p, c) ∈ d.back := by
    by_contra hnot
    exact hcut ((h.child p c).mpr ⟨hparent, hnot⟩)
  have hc : c ∈ d.finished := by simpa using (h.ok.edge p c hback).2.2
  refine ⟨(h.reached_iff c).mpr ((h.finished c).mp hc), ?_⟩
  exact (h.ok.closes p c hback hc).lift id fun _ _ => h.child_of_kept

/-- There are no more finished routers than routers. -/
theorem Parsed.idxOf_lt (hord : Enumerates order routers) (hn : n ∈ d.finished) :
    d.finished.idxOf n < order.length + 1 := by
  have hsub : d.finished ⊆ order := by
    intro n hn
    obtain ⟨root, hroot, hway⟩ := (h.finished n).mp hn
    rw [hord.mem]
    cases hway with
    | refl => exact isRoot_exist hroot
    | tail _ hparent => exact isChild_exist hparent.2
  have hnd : d.finished.Nodup := by simpa using h.ok.nodup
  have hle := (hnd.subperm hsub).length_le
  have hlt := idxOf_lt_length_of_mem hn
  omega

end Parsed

/-! ## Other orders -/

/-- The routers differ in the order of their children only. -/
structure Alike (r r' : RouterInfo) : Prop where
  same : r' = r.withChildren r'.childRefs
  perm : r.childRefs.Perm r'.childRefs

/-- The same routers up to the order of their children. -/
structure AlikeRouters (routers routers' : Routers) : Prop where
  exist : ∀ n, (routers.lookup n).isSome = (routers'.lookup n).isSome
  alike : ∀ n r r', routers.lookup n = some r → routers'.lookup n = some r' → Alike r r'

/-- The same state of the search. -/
structure AlikeStates (st st' : TreeState) : Prop where
  routers : AlikeRouters st.routers st'.routers
  visited : st.visited = st'.visited
  currentPath : st.currentPath = st'.currentPath

theorem AlikeRouters.modify {rs' : Routers} {change change' : RouterInfo → RouterInfo}
    (h : AlikeRouters routers rs') (name : String)
    (hchange : ∀ r r', Alike r r' → Alike (change r) (change' r')) :
    AlikeRouters (modify name change routers) (modify name change' rs') := by
  constructor
  · intro n
    rw [isSome_lookup_modify, isSome_lookup_modify, h.exist]
  · intro n r r' hr hr'
    rw [lookup_modify] at hr hr'
    split at hr
    · next heq =>
      rw [if_pos heq] at hr'
      obtain ⟨r₁, hr₁, rfl⟩ := Option.map_eq_some_iff.mp hr
      obtain ⟨r₁', hr₁', rfl⟩ := Option.map_eq_some_iff.mp hr'
      exact hchange r₁ r₁' (h.alike n r₁ r₁' hr₁ hr₁')
    · next hne =>
      rw [if_neg hne] at hr'
      exact h.alike n r r' hr hr'

theorem Alike.addError {r r' : RouterInfo} (h : Alike r r') (err : String) (critical : Bool) :
    Alike (r.addError err critical) (r'.addError err critical) := by
  constructor
  · rw [addError_childRefs, ← addError_withChildren, ← h.same]
  · rw [addError_childRefs, addError_childRefs]
    exact h.perm

theorem Alike.checkRouter {r r' : RouterInfo} (h : Alike r r') (visited : Bool) :
    Alike (checkRouter visited r) (checkRouter visited r') := by
  have hsvc : r'.service = r.service := by rw [h.same]; rfl
  have hempty : r'.childRefs.isEmpty = r.childRefs.isEmpty := by
    rw [Bool.eq_iff_iff, List.isEmpty_iff, List.isEmpty_iff]
    constructor
    · intro hnil
      exact perm_nil.mp (hnil ▸ h.perm)
    · intro hnil
      exact nil_perm.mp (hnil ▸ h.perm)
  unfold RouterTree.checkRouter
  rw [hsvc, hempty]
  split
  · exact h.addError _ _
  · split
    · exact h.addError _ _
    · split
      · exact h.addError _ _
      · exact h

variable {st' : TreeState}

theorem AlikeStates.handleCycle (h : AlikeStates st st') (name : String) (path : List String) :
    AlikeStates (handleCycle name path st) (handleCycle name path st') := by
  unfold RouterTree.handleCycle
  split
  · exact h
  · cases path.getLast? with
    | none => exact h
    | some guilty =>
      refine { h with routers := h.routers.modify guilty fun r r' halike => ?_ }
      have herror := halike.addError ("cyclic reference detected in router tree: " ++
        " -> ".intercalate (path.drop (path.idxOf name) ++ [name])) false
      exact ⟨by rw [herror.same]; rfl, herror.perm.erase name⟩

/-- The search sorts the children, so their order does not show. -/
theorem traverse_alike (h : AlikeStates st st') {st₁ : TreeState}
    (hrun : traverse fuel path name st = some st₁) :
    ∃ st₁', traverse fuel path name st' = some st₁' ∧ AlikeStates st₁ st₁' := by
  induction fuel generalizing path name st st' st₁ with
  | zero => cases hrun
  | succ fuel ih =>
    rw [traverse] at hrun ⊢
    rw [← h.currentPath, ← h.visited]
    split at hrun
    · next hcur =>
      rw [← Option.some.inj hrun, if_pos hcur]
      exact ⟨_, rfl, h.handleCycle name path⟩
    next hcur =>
    rw [if_neg hcur]
    split at hrun
    · next hvisited =>
      rw [← Option.some.inj hrun, if_pos hvisited]
      exact ⟨st', rfl, h⟩
    next hvisited =>
    rw [if_neg hvisited]
    have hexist := h.routers.exist name
    cases hr : st.routers.lookup name with
    | none =>
      rw [hr] at hrun hexist
      rw [Option.isSome_eq_false_iff.mp hexist.symm |> Option.isNone_iff_eq_none.mp]
      obtain rfl := Option.some.inj hrun
      exact ⟨_, rfl, h.routers, rfl, rfl⟩
    | some r =>
      rw [hr] at hrun hexist
      obtain ⟨r', hr'⟩ := Option.isSome_iff_exists.mp hexist.symm
      rw [hr']
      dsimp only at hrun ⊢
      obtain ⟨st₂, hst₂, rfl⟩ := Option.map_eq_some_iff.mp hrun
      rw [← sortStrings_eq (h.routers.alike name r r' hr hr').perm]
      have hpush : AlikeStates
          { st with
            visited := update st.visited name true
            currentPath := update st.currentPath name true }
          { st' with
            visited := update st.visited name true
            currentPath := update st.currentPath name true } := ⟨h.routers, rfl, rfl⟩
      obtain ⟨st₂', hst₂', h₂⟩ := Outcome.foldlM_sim hpush hst₂
        fun _ _ _ _ _ halike hst => ih halike hst
      rw [hst₂']
      refine ⟨_, rfl, h₂.routers, h₂.visited, ?_⟩
      rw [h₂.currentPath]

theorem traverseRoots_alike (h : AlikeStates st st') {roots : List String} {st₁ : TreeState}
    (hrun : traverseRoots fuel roots st = some st₁) :
    ∃ st₁', traverseRoots fuel roots st' = some st₁' ∧ AlikeStates st₁ st₁' := by
  refine Outcome.foldlM_sim h hrun fun n _ st st' st₁ halike hst => ?_
  rw [← halike.visited]
  split at hst
  · next hvisited =>
    rw [← Option.some.inj hst, if_pos hvisited]
    exact ⟨st', rfl, halike⟩
  · next hvisited =>
    rw [if_neg hvisited]
    exact traverse_alike halike hst

theorem enumerates_perm {order₂ : List String} (h : Enumerates order routers)
    (h₂ : Enumerates order₂ routers) : order.Perm order₂ :=
  (perm_ext_iff_of_nodup h.nodup h₂.nodup).mpr fun n => (h.mem n).trans (h₂.mem n).symm

/-- **Any other order** of the two loops gives the same routers, up to the order of their
    children. -/
theorem parseRouterTree_alike (quote : String → String) {order' order₂ order₂' : List String}
    (hfresh : Fresh routers) (hord : Enumerates order routers) (hord' : Enumerates order' routers)
    (horder₂ : Enumerates order₂ routers) (horder₂' : Enumerates order₂' routers) {t : Routers}
    (hparse : parseRouterTree quote order order' fuel routers = some t) :
    ∃ t', parseRouterTree quote order₂ order₂' fuel routers = some t' ∧ AlikeRouters t t' := by
  have hperm := enumerates_perm hord horder₂
  have hlinked : AlikeRouters (order.foldl (linkRouter quote) routers)
      (order₂.foldl (linkRouter quote) routers) := by
    constructor
    · intro n
      rw [lookup_linked_fresh hfresh hord, lookup_linked_fresh hfresh horder₂, Option.isSome_map,
        Option.isSome_map]
    · intro n r r' hr hr'
      rw [lookup_linked_fresh hfresh hord] at hr
      rw [lookup_linked_fresh hfresh horder₂] at hr'
      obtain ⟨r₀, hr₀, rfl⟩ := Option.map_eq_some_iff.mp hr
      obtain ⟨r₁, hr₁, rfl⟩ := Option.map_eq_some_iff.mp hr'
      obtain rfl : r₀ = r₁ := Option.some.inj (hr₀.symm.trans hr₁)
      exact ⟨rfl, hperm.filter _⟩
  have hroots : sortStrings (order.filter (isRoot routers)) =
      sortStrings (order₂.filter (isRoot routers)) := sortStrings_eq (hperm.filter _)
  dsimp only [parseRouterTree] at hparse ⊢
  obtain ⟨st, hst, rfl⟩ := Option.map_eq_some_iff.mp hparse
  have hstart : AlikeStates
      ⟨order.foldl (linkRouter quote) routers, fun _ => false, fun _ => false⟩
      ⟨order₂.foldl (linkRouter quote) routers, fun _ => false, fun _ => false⟩ := ⟨hlinked, rfl, rfl⟩
  obtain ⟨st', hst', halike⟩ := traverseRoots_alike hstart hst
  rw [← hroots, hst']
  refine ⟨_, rfl, ?_⟩
  have hmem : ∀ n, n ∈ order' ↔ n ∈ order₂' := fun n => (hord'.mem n).trans (horder₂'.mem n).symm
  constructor
  · intro n
    rw [lookup_checkRouters hord'.nodup, lookup_checkRouters horder₂'.nodup]
    have hexist := halike.routers.exist n
    split <;> split <;> simpa using hexist
  · intro n r r' hr hr'
    rw [lookup_checkRouters hord'.nodup] at hr
    rw [lookup_checkRouters horder₂'.nodup] at hr'
    by_cases hn : n ∈ order'
    · rw [if_pos hn] at hr
      rw [if_pos ((hmem n).mp hn)] at hr'
      obtain ⟨r₁, hr₁, rfl⟩ := Option.map_eq_some_iff.mp hr
      obtain ⟨r₁', hr₁', rfl⟩ := Option.map_eq_some_iff.mp hr'
      rw [← halike.visited]
      exact (halike.routers.alike n r₁ r₁' hr₁ hr₁').checkRouter _
    · rw [if_neg hn] at hr
      rw [if_neg (fun hn' => hn ((hmem n).mpr hn'))] at hr'
      exact halike.routers.alike n r r' hr hr'

/-! ## Handlers -/

/-- The routers have the children they have in `t`. -/
def SameChildren (t routers : Routers) : Prop :=
  ∀ n r, routers.lookup n = some r → ∃ r₀, t.lookup n = some r₀ ∧ r.childRefs = r₀.childRefs

theorem SameChildren.modify {t : Routers} (h : SameChildren t routers) (name : String)
    {change : RouterInfo → RouterInfo} (hchange : ∀ r, (change r).childRefs = r.childRefs) :
    SameChildren t (modify name change routers) := by
  intro n r hr
  rw [lookup_modify] at hr
  split at hr
  · obtain ⟨r₁, hr₁, rfl⟩ := Option.map_eq_some_iff.mp hr
    rw [hchange]
    exact h n r₁ hr₁
  · exact h n r hr

variable {B : Builder H} {t : Routers} {s : BuildState H}

/-- The computation ends, and leaves the children as they are. -/
def Ends {α : Type} (t : Routers) (result : Option (Except String α × BuildState H)) : Prop :=
  ∃ out s', result = some (out, s') ∧ SameChildren t s'.routers

/-- The muxer is built when the handlers of the children are. -/
theorem addChildren_ends
    {build : String → RouterInfo → BuildState H → Option (Except String H × BuildState H)}
    (kids : List String) (total : ℕ) (routes : List (Route H)) (count : ℕ)
    (hbuild : ∀ c ∈ kids, ∀ r s, SameChildren t s.routers → s.routers.lookup c = some r →
      Ends t (build c r s))
    (hs : SameChildren t s.routers) :
    Ends t (addChildren quote B build total kids routes count s) := by
  induction kids generalizing routes count s with
  | nil =>
    rw [addChildren]
    split <;> exact ⟨_, s, rfl, hs⟩
  | cons c kids ih =>
    replace ih := fun routes count s => @ih s routes count
      (fun c' hc' => hbuild c' (mem_cons_of_mem c hc'))
    rw [addChildren]
    cases hr : s.routers.lookup c with
    | none => exact ⟨_, s, rfl, hs⟩
    | some r =>
      dsimp only
      split
      · exact ih routes count s hs
      obtain ⟨out, s', hout, hs'⟩ := hbuild c (.head _) r.setPriority
        { s with routers := modify c setPriority s.routers }
        (hs.modify c fun _ => rfl) (by rw [lookup_modify, if_pos rfl, hr, Option.map_some])
      rw [hout]
      match out with
      | .error e => exact ih routes count _ (hs'.modify c fun r => addError_childRefs r e true)
      | .ok handler =>
        dsimp only
        cases addRoute B routes (r.route c handler) with
        | error e => exact ih routes count _ (hs'.modify c fun r => addError_childRefs r e true)
        | ok routes => exact ih routes (count + 1) s' hs'

theorem finishHandler_ends (name : String) (r : Router) (next : Except String H)
    (hs : SameChildren t s.routers) : Ends t (some (finishHandler B name r s next)) := by
  unfold finishHandler
  split <;> exact ⟨_, _, rfl, hs⟩

/-- **The handlers are built**: every child is finished before its parent. -/
theorem buildRouterHandler_ends {A : String → List String} (h : Parsed routers t A d) {r : RouterInfo}
    (hname : name ∈ d.finished) (hfuel : d.finished.idxOf name < fuel)
    (hs : SameChildren t s.routers) (hr : s.routers.lookup name = some r) :
    Ends t (buildRouterHandler quote B fuel name r s) := by
  induction fuel generalizing name r s with
  | zero => omega
  | succ fuel ih =>
    rw [buildRouterHandler]
    split
    · exact ⟨_, s, rfl, hs⟩
    split
    · exact ⟨_, s, rfl, hs⟩
    split
    · have hkids : ∀ c ∈ r.childRefs, ∀ r' s', SameChildren t s'.routers →
          s'.routers.lookup c = some r' → Ends t (buildRouterHandler quote B fuel c r' s') := by
        intro c hc r' s' hs' hr'
        obtain ⟨r₀, hr₀, heq⟩ := hs name r hr
        obtain ⟨⟨-, -, hlt⟩, hfin⟩ := h.kept_of_child hname ⟨r₀, hr₀, heq ▸ hc⟩
        exact ih hfin (by omega) hs' hr'
      obtain ⟨out, s', hout, hs'⟩ := addChildren_ends r.childRefs
        r.childRefs.length [] 0 hkids hs
      rw [buildChildRoutersMuxer, childRoutes, hout]
      exact finishHandler_ends name r.toRouter _ hs'
    · split
      · exact finishHandler_ends name r.toRouter _ hs
      · exact ⟨_, s, rfl, hs⟩

/-! ## The result -/

/-- **The router tree**: `ParseRouterTree` ends; among the routers that a router without
    parents leads to there are no cycles, and they are the same as before; only references
    that close a cycle are cut; exactly the other routers are disabled as not reachable;
    the orders of the loops do not show; and the handlers can be built. -/
theorem parseRouterTree_sound (quote : String → String) (routers : Routers) (order order' : List String)
    (hfresh : Fresh routers) (horder : Enumerates order routers) (horder' : Enumerates order' routers) :
    ∃ t, parseRouterTree quote order order' (order.length + 1) routers = some t ∧
      (∀ n, (t.lookup n).isSome = (routers.lookup n).isSome) ∧
      (∀ n, Reached routers (Child t) n → ¬ TransGen (Child t) n n) ∧
      (∀ n, Reached routers (Parent routers) n → Reached routers (Child t) n) ∧
      (∀ p c, Child t p c → Parent routers p c) ∧
      (∀ p c, Parent routers p c → ¬ Child t p c →
        Reached routers (Child t) c ∧ ReflTransGen (Child t) c p) ∧
      (∀ n r, t.lookup n = some r →
        (notReachable ∈ r.err ↔ ¬ Reached routers (Parent routers) n) ∧
        (notReachable ∈ r.err → r.status = .disabled)) ∧
      (∀ order₂ order₂', Enumerates order₂ routers → Enumerates order₂' routers →
        ∃ t', parseRouterTree quote order₂ order₂' (order₂.length + 1) routers = some t' ∧
          AlikeRouters t t') ∧
      ∀ (H : Type) (B : Builder H) (s : BuildState H) (name : String) (r : RouterInfo),
        SameChildren t s.routers → isRoot routers name = true → s.routers.lookup name = some r →
        (buildRouterHandler quote B (order.length + 1) name r s).isSome = true := by
  obtain ⟨t, d, hparse, h⟩ :=
    parseRouterTree_parsed quote hfresh horder horder' (Nat.lt_succ_self order.length)
  refine ⟨t, hparse, h.exist, fun _ => h.acyclic, fun n hn => (h.reached_iff n).mpr hn,
    fun p c hchild => ((h.child p c).mp hchild).1, fun _ _ => h.cut_closes,
    ?_, ?_, ?_⟩
  · intro n r hr
    obtain ⟨hiff, hstat⟩ := h.error n r hr
    exact ⟨hiff.trans (not_congr (h.finished n)), hstat⟩
  · intro order₂ order₂' horder₂ horder₂'
    rw [← (enumerates_perm horder horder₂).length_eq]
    exact parseRouterTree_alike quote hfresh horder horder' horder₂ horder₂' hparse
  · intro H B s name r hs hroot hr
    have hname : name ∈ d.finished := (h.finished name).mpr ⟨name, hroot, .refl⟩
    obtain ⟨out, s', hout, -⟩ := @buildRouterHandler_ends quote H d name _ routers B t s _ h r
      hname (h.idxOf_lt horder hname) hs hr
    rw [hout]
    rfl

/-- The routers of `NewConfig`. -/
def newConfig (rs : List (String × Router)) : Routers :=
  (rs.map fun x => (⟨x.1, x.2.info⟩ : Sigma fun _ : String => RouterInfo)).toFinmap

theorem lookup_newConfig (rs : List (String × Router)) (n : String) :
    (newConfig rs).lookup n = (rs.find? (·.1 = n)).map (·.2.info) := by
  rw [newConfig, Finmap.dlookup_list_toFinmap]
  induction rs with
  | nil => rfl
  | cons x rs ih =>
    rw [map_cons]
    by_cases hn : x.1 = n
    · subst hn
      rw [dlookup_cons_eq, find?_cons_of_pos (by simp)]
      rfl
    · rw [dlookup_cons_ne _ _ (Ne.symm hn), find?_cons_of_neg (by simpa using hn)]
      exact ih

theorem newConfig_fresh (rs : List (String × Router)) : Fresh (newConfig rs) := by
  intro n r hr
  rw [lookup_newConfig] at hr
  obtain ⟨x, -, rfl⟩ := Option.map_eq_some_iff.mp hr
  rfl

theorem newConfig_enumerates {rs : List (String × Router)}
    (hnd : order.Nodup) (hord : order.Perm (rs.map Prod.fst)) :
    Enumerates order (newConfig rs) := by
  refine ⟨hnd, fun n => ?_⟩
  rw [hord.mem_iff, lookup_newConfig, Option.isSome_map, find?_isSome, mem_map]
  simp

open Router

/-- A root, and two routers that are parents of each other. -/
def cyclic : Routers :=
  ((Finmap.insert "c" (info ⟨[], ["b"], "", "", "", 0, none, false⟩) ∅).insert "b"
    (info ⟨[], ["a", "c"], "", "", "", 0, none, false⟩)).insert "a"
    (info ⟨["web"], [], "", "", "", 0, none, false⟩)

/-- The reference from `c` back to `b` is cut, and all are still reached. -/
theorem cyclic_cut : ∃ t, parseRouterTree id ["b", "c", "a"] ["a", "b", "c"] 4 cyclic = some t ∧
    (t.lookup "b").map RouterInfo.childRefs = some ["c"] ∧
    (t.lookup "c").map RouterInfo.childRefs = some [] ∧
    ∀ n, Reached cyclic (Child t) n → ¬ TransGen (Child t) n n := by
  have hcyclic : cyclic = newConfig [("a", ⟨["web"], [], "", "", "", 0, none, false⟩),
      ("b", ⟨[], ["a", "c"], "", "", "", 0, none, false⟩),
      ("c", ⟨[], ["b"], "", "", "", 0, none, false⟩)] := by decide
  have hord : ∀ {order : List String}, order.Nodup → order.Perm ["a", "b", "c"] →
      Enumerates order cyclic := fun hnd hperm => hcyclic ▸ newConfig_enumerates hnd hperm
  obtain ⟨t, hparse, -, hacyclic, -⟩ := parseRouterTree_sound id cyclic ["b", "c", "a"] ["a", "b", "c"]
    (hcyclic ▸ newConfig_fresh _) (hord (by decide) (by decide)) (hord (by decide) (by decide))
  have hrun : (parseRouterTree id ["b", "c", "a"] ["a", "b", "c"] 4 cyclic).map (fun t =>
      ((t.lookup "b").map childRefs, (t.lookup "c").map childRefs)) =
        some (some ["c"], some []) := by decide
  refine ⟨t, hparse, ?_⟩
  rw [show (4 : ℕ) = ["b", "c", "a"].length + 1 from rfl, hparse] at hrun
  obtain ⟨hb, hc⟩ := Prod.mk.inj (Option.some.inj hrun)
  exact ⟨hb, hc, hacyclic⟩

end Ingress.RouterTree
