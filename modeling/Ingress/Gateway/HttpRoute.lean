import Ingress.Gateway.Backends

/-! # Loading HTTP Routes

    `loadHTTPRoutes`: each route is loaded for the listeners that its references to
    gateways select, into a configuration of its own, which is then merged into the
    configuration of the provider.

    Loading writes one entry after another into maps.  A loading function of this
    module returns its writes in their order; what it reads of the maps is whether a
    key has been written.

    * `loadService`, `loadWRRService`, `loadHTTPRoute`, `loadHTTPRoutes`: the code.
    * `merges`: for which listeners a route is merged, in order.
    * `merged_iff_selected`: when these are the listeners that the route selects.
    * `attachedRoutes_iff`: when a listener counts the routes that select it. -/

open Journal Ingress.Provider List

namespace Ingress.Gateway

/-! ## Routes and configurations -/

structure HTTPRouteRule where
  routeMatches : List HTTPRouteMatch
  filters : List HTTPRouteFilter
  backendRefs : List HTTPBackendRef
  deriving DecidableEq, Repr

structure HTTPRoute where
  namespaceOf : String
  name : String
  parentRefs : List ParentReference
  hostnames : List Hostname
  rules : List HTTPRouteRule
  deriving DecidableEq

structure Router where
  ruleSyntax : String
  rule : String
  priority : ℤ
  entryPoints : List String
  tls : Bool
  middlewares : List String
  service : String
  deriving DecidableEq, Repr

structure WRRService where
  name : String
  status : Option ℕ
  weight : ℤ
  deriving DecidableEq, Repr

/-- `dynamic.Service`, of the kinds that are built here. -/
inductive Service where
  | weighted (services : List WRRService)
  | loadBalancer (servers : List String) (serversTransport : String) (middlewares : List String)
  deriving DecidableEq, Repr

structure HTTPConfiguration where
  routers : Finmap fun _ : String => Router
  middlewares : Finmap fun _ : String => Middleware
  services : Finmap fun _ : String => Service
  serversTransports : Finmap fun _ : String => ServersTransport

/-- Writes to a configuration, the oldest first. -/
structure Writes where
  routers : List (String × Router)
  middlewares : List (String × Middleware)
  services : List (String × Service)
  serversTransports : List (String × ServersTransport)

/-- Nothing was written. -/
def Writes.none : Writes where
  routers := []
  middlewares := []
  services := []
  serversTransports := []

/-- Some writes after others. -/
def Writes.append (w w' : Writes) : Writes where
  routers := w.routers ++ w'.routers
  middlewares := w.middlewares ++ w'.middlewares
  services := w.services ++ w'.services
  serversTransports := w.serversTransports ++ w'.serversTransports

instance : Append Writes := ⟨Writes.append⟩

@[simp] theorem routers_append (w w' : Writes) : (w ++ w').routers = w.routers ++ w'.routers := rfl

@[simp] theorem middlewares_append (w w' : Writes) :
    (w ++ w').middlewares = w.middlewares ++ w'.middlewares :=
  rfl

@[simp] theorem services_append (w w' : Writes) : (w ++ w').services = w.services ++ w'.services :=
  rfl

/-- The configuration after writes to an empty one. -/
def Writes.configuration (w : Writes) : HTTPConfiguration where
  routers := replay ∅ w.routers
  middlewares := replay ∅ w.middlewares
  services := replay ∅ w.services
  serversTransports := replay ∅ w.serversTransports

/-! ## The code -/

variable (cluster : Cluster)

/-- `loadMiddlewares`: the names, and the writes of what was built. -/
def loadMiddlewares (namespaceName routerName : String)
    (filters : List HTTPRouteFilter) (pathMatch : Option HTTPPathMatch) :
    Except String (List String × Writes) :=
  (namedMiddlewares cluster namespaceName routerName (pathMatchOf pathMatch) 0 filters).map fun ms =>
    (ms.map Prod.fst,
      { Writes.none with middlewares := ms.filterMap fun m => m.2.map fun config => (m.1, config) })

def HTTPBackendRef.namespaceIn (routeNamespace : String) (ref : HTTPBackendRef) : String :=
  if ref.namespaceOf.getD "" ≠ "" then ref.namespaceOf.getD "" else routeNamespace

def HTTPBackendRef.groupOf (ref : HTTPBackendRef) : String :=
  if ref.group.getD "" ≠ "" then ref.group.getD "" else groupCore

def HTTPBackendRef.kindOf (ref : HTTPBackendRef) : String :=
  ref.kind.getD kindService

/-- The name of the service of a backend, without the port; its filters are named
    after it. -/
def backendName (namespaceName : String) (ref : HTTPBackendRef) : String :=
  normalize cluster.unicode (namespaceName ++ "-" ++ ref.name ++ "-http")

/-- The name of the service of a backend. -/
def serviceName (namespaceName : String) (ref : HTTPBackendRef) : String :=
  normalize cluster.unicode
    (backendName cluster namespaceName ref ++ "-" ++ toString (ref.port.getD 0))

def loadHTTPBackendRef (namespaceName : String) (ref : HTTPBackendRef) : Except String String :=
  if ref.kind = some "IngressService" ∧ '@' ∈ ref.name.toList then .ok ref.name
  else
    match cluster.backendFuncs (ref.group.getD "") (ref.kind.getD "") with
    | none => .error ("unsupported HTTPBackendRef " ++ ref.group.getD "" ++ "/" ++
        ref.kind.getD "" ++ "/" ++ ref.name)
    | some backendFunc => backendFunc ref.name namespaceName

/-- What `loadService` returns: the name of the service, the condition when there is an
    error, and the writes. -/
structure Loaded where
  name : String
  condition : Option Condition
  writes : Writes

/-- The writes of a service that was loaded. -/
def serviceWrites (name : String) (servers : List String) (st : Option ServersTransport)
    (middlewares : List String) : Writes where
  routers := []
  middlewares := []
  services :=
    [(name, .loadBalancer servers (if st.isSome then name else "") middlewares)]
  serversTransports := (st.map fun st => (name, st)).toList

/-- `loadService`.  The filters are written before the port and the servers are looked
    at. -/
def loadService (routeNamespace : String) (ref : HTTPBackendRef)
    (pathMatch : Option HTTPPathMatch) : Loaded :=
  let namespaceName := ref.namespaceIn routeNamespace
  let name := backendName cluster namespaceName ref
  let path := ref.groupOf ++ "/" ++ ref.kindOf ++ "/" ++ namespaceName ++ "/" ++ ref.name
  match isReferenceGranted cluster kindHTTPRoute routeNamespace ref.groupOf ref.kindOf ref.name
      namespaceName with
  | .error err =>
    ⟨name, some ⟨"RefNotPermitted", "Cannot load HTTPBackendRef " ++ path ++ ": " ++ err⟩, .none⟩
  | .ok () =>
    match loadMiddlewares cluster namespaceName name ref.filters pathMatch with
    | .error err =>
      ⟨name, some ⟨"InvalidKind", "Cannot load filters on HTTPBackendRef " ++ path ++ ": " ++ err⟩,
        .none⟩
    | .ok (middlewares, writes) =>
      if ref.groupOf ≠ groupCore ∨ ref.kindOf ≠ kindService then
        match loadHTTPBackendRef cluster namespaceName ref with
        | .error err =>
          ⟨name, some ⟨"InvalidKind", "Cannot load HTTPBackendRef " ++ path ++ ": " ++ err⟩, writes⟩
        | .ok name => ⟨name, none, writes⟩
      else if ref.port.getD 0 = 0 then
        ⟨name, some ⟨"UnsupportedProtocol", "Cannot load HTTPBackendRef " ++ path ++
          ": port is required"⟩, writes⟩
      else
        let name := serviceName cluster namespaceName ref
        match loadHTTPServers cluster namespaceName ref with
        | .error condition => ⟨name, some condition, writes⟩
        | .ok (servers, st) => ⟨name, none, writes ++ serviceWrites name servers st middlewares⟩

/-- The weighted service of the backends of a rule. -/
def wrrOf (routeNamespace : String) (rule : HTTPRouteRule)
    (pathMatch : Option HTTPPathMatch) : Service :=
  .weighted (rule.backendRefs.map fun ref =>
    let loaded := loadService cluster routeNamespace ref pathMatch
    { name := loaded.name, status := loaded.condition.map fun _ => 500, weight := ref.weight.getD 1 })

/-- `loadWRRService`, with the keys of the services that have been written.  A service
    that is there already is not loaded again. -/
def loadWRRService (routeNamespace : String) (known : List String)
    (routeKey : String) (rule : HTTPRouteRule) (pathMatch : Option HTTPPathMatch) :
    Option Condition × Writes :=
  let name := routeKey ++ "-wrr"
  if name ∈ known then (none, .none)
  else
    let loaded := rule.backendRefs.map fun ref => loadService cluster routeNamespace ref pathMatch
    ((loaded.filterMap Loaded.condition).getLast?,
      loaded.foldr (fun l writes => l.writes ++ writes)
        { Writes.none with services := [(name, wrrOf cluster routeNamespace rule pathMatch)] })

def isInternalService (ref : HTTPBackendRef) : Bool :=
  ref.group = some "hanzo.ai" && ref.kind = some "IngressService" &&
    "@internal".toList.isSuffixOf ref.name.toList

/-- A route that is loaded for a listener, with the hostnames they have in common. -/
structure Visit where
  listener : GatewayListener
  route : HTTPRoute
  hostnames : List Hostname
  deriving DecidableEq

/-- A match of the `ri`-th rule of a route. -/
structure Step where
  ri : ℕ
  rule : HTTPRouteRule
  routeMatch : HTTPRouteMatch
  deriving DecidableEq, Repr

/-- The loops over the rules of a route and their matches. -/
def HTTPRoute.steps (route : HTTPRoute) : List Step :=
  route.rules.zipIdx.flatMap fun (rule, ri) =>
    rule.routeMatches.map fun routeMatch => { ri, rule, routeMatch }

def Visit.routeKey (v : Visit) (ri : ℕ) : String :=
  normalize cluster.unicode ("httproute-" ++ v.route.namespaceOf ++ "-" ++ v.route.name ++ "-gw-" ++
    v.listener.gwNamespace ++ "-" ++ v.listener.gwName ++ "-ep-" ++ v.listener.epName ++ "-" ++
    toString ri)

def makeRouterName (rule name : String) : String :=
  name ++ "-" ++ cluster.hash rule

/-- The name of the router of a match. -/
def Visit.routerName (v : Visit) (s : Step) : String :=
  makeRouterName cluster (buildMatchRule v.hostnames s.routeMatch).1 (v.routeKey cluster s.ri)

/-- The service that answers for filters that cannot be loaded. -/
def errWrr : Service :=
  .weighted [{ name := "invalid-httproute-filter", status := some 500, weight := 1 }]

/-- The filters of a rule, as they are loaded for a match. -/
def Visit.filters (cluster : Cluster) (v : Visit) (s : Step) :
    Except String (List String × Writes) :=
  loadMiddlewares cluster v.route.namespaceOf (v.routerName cluster s) s.rule.filters
    s.routeMatch.path

/-- The only backend of a rule, when it is a service of the proxy itself. -/
def HTTPRouteRule.internalService (rule : HTTPRouteRule) : Option String :=
  match rule.backendRefs with
  | [ref] => if isInternalService ref then some ref.name else none
  | _ => none

/-- The router of a match. -/
def Visit.router (v : Visit) (s : Step) : Router :=
  let (rule, priority) := buildMatchRule v.hostnames s.routeMatch
  let name := v.routerName cluster s
  { ruleSyntax := "default"
    rule
    priority := priority + v.route.rules.length - s.ri
    entryPoints := [v.listener.epName]
    tls := v.listener.protocol = .https
    middlewares := ((v.filters cluster s).toOption.map Prod.fst).getD []
    service :=
      match v.filters cluster s with
      | .error _ => name ++ "-err-wrr"
      | .ok _ => s.rule.internalService.getD (name ++ "-wrr") }

/-- One match: what is written, and the condition of its backends. -/
def Visit.loadMatch (v : Visit) (known : List String) (s : Step) : Option Condition × Writes :=
  let name := v.routerName cluster s
  let router := { Writes.none with routers := [(name, v.router cluster s)] }
  match v.filters cluster s with
  | .error _ => (none, { router with services := [(name ++ "-err-wrr", errWrr)] })
  | .ok (_, writes) =>
    match s.rule.internalService with
    | some _ => (none, writes ++ router)
    | none =>
      let (condition, backends) :=
        loadWRRService cluster v.route.namespaceOf known name s.rule s.routeMatch.path
      (condition, writes ++ backends ++ router)

/-- `loadHTTPRoute`: the condition, when it is false, and the writes. -/
def loadHTTPRoute (v : Visit) : Option Condition × Writes :=
  v.route.steps.foldl (fun (condition, conf) s =>
    let (condition', writes) := v.loadMatch cluster (conf.services.map Prod.fst) s
    (condition'.or condition, conf ++ writes)) (none, .none)

def mergeHTTPConfiguration (source target : HTTPConfiguration) : HTTPConfiguration where
  routers := source.routers ∪ target.routers
  middlewares := source.middlewares ∪ target.middlewares
  services := source.services ∪ target.services
  serversTransports := source.serversTransports ∪ target.serversTransports

/-- A listener accepts a route through a reference. -/
def accepted (listener : GatewayListener) (route : HTTPRoute) (parentRef : ParentReference) : Bool :=
  matchListener listener parentRef && allowRoute listener route.namespaceOf kindHTTPRoute &&
    (findMatchingHostnames listener.hostname route.hostnames).2

/-- The configurations of a route that are merged: for each reference, and each listener
    of a gateway that some reference names. -/
def merges (gatewayListeners : List GatewayListener) (route : HTTPRoute) : List Visit :=
  route.parentRefs.flatMap fun parentRef =>
    (matchingGatewayListeners gatewayListeners route.namespaceOf route.parentRefs).filterMap
      fun listener =>
        if accepted listener route parentRef && listener.attached then
          some ⟨listener, route, (findMatchingHostnames listener.hostname route.hostnames).1⟩
        else none

def loadHTTPRoutes (gatewayListeners : List GatewayListener)
    (routes : List HTTPRoute) (conf : HTTPConfiguration) : HTTPConfiguration :=
  (routes.flatMap (merges gatewayListeners)).foldl (fun conf v =>
    mergeHTTPConfiguration (loadHTTPRoute cluster v).2.configuration conf) conf

/-! ## The listeners of a route -/

/-- The listener takes routes like this one: it is attached, and allows its namespace
    and kind and one of its hostnames. -/
structure Open (route : HTTPRoute) (l : GatewayListener) : Prop where
  attached : l.attached = true
  allowed : allowRoute l route.namespaceOf kindHTTPRoute = true
  hostnames : (findMatchingHostnames l.hostname route.hostnames).2 = true

/-- A single reference selects the listener: it names its gateway, and agrees with its
    section name and its port when they are set. -/
def Selected (route : HTTPRoute) (l : GatewayListener) : Prop :=
  ∃ parentRef ∈ route.parentRefs,
    parentRef.namesGateway route.namespaceOf l = true ∧ matchListener l parentRef = true

/-- A route is merged for a listener when one reference names its gateway and one, which
    may be another, agrees with its section name and port. -/
theorem mem_merges_iff {listeners : List GatewayListener} {route : HTTPRoute}
    {l : GatewayListener} : (∃ v ∈ merges listeners route, v.listener = l) ↔
      l ∈ listeners ∧ Open route l ∧
        (∃ parentRef ∈ route.parentRefs, parentRef.namesGateway route.namespaceOf l = true) ∧
        ∃ parentRef ∈ route.parentRefs, matchListener l parentRef = true := by
  simp only [merges, mem_flatMap, mem_filterMap, mem_matchingGatewayListeners]
  constructor
  · rintro ⟨v, ⟨parentRef, href, listener, ⟨hmem, hnames⟩, hsome⟩, rfl⟩
    split at hsome
    next h =>
      cases hsome
      simp only [accepted, Bool.and_eq_true] at h
      obtain ⟨⟨⟨hmatch, hallowed⟩, hhostnames⟩, hattached⟩ := h
      exact ⟨hmem, ⟨hattached, hallowed, hhostnames⟩, hnames, parentRef, href, hmatch⟩
    next => cases hsome
  · rintro ⟨hmem, hopen, hnames, parentRef, href, hmatch⟩
    refine ⟨⟨l, route, (findMatchingHostnames l.hostname route.hostnames).1⟩,
      ⟨parentRef, href, l, ⟨hmem, hnames⟩, ?_⟩, rfl⟩
    rw [accepted, hmatch, hopen.allowed, hopen.hostnames, hopen.attached]
    rfl

/-- **A route is attached to the listeners that it selects** exactly when no listener is
    put together from two references, one that names its gateway and another that agrees
    with its section name and port. -/
theorem merged_iff_selected (gatewayListeners : List GatewayListener) (route : HTTPRoute)
    (l : GatewayListener) (hmem : l ∈ gatewayListeners) :
    ((∃ v ∈ merges gatewayListeners route, v.listener = l) ↔ Open route l ∧ Selected route l) ↔
      (Open route l →
        (∃ parentRef ∈ route.parentRefs, parentRef.namesGateway route.namespaceOf l = true) →
        (∃ parentRef ∈ route.parentRefs, matchListener l parentRef = true) → Selected route l) := by
  rw [mem_merges_iff]
  constructor
  · intro hiff hopen hnames hmatch
    exact (hiff.mp ⟨hmem, hopen, hnames, hmatch⟩).2
  · intro hsingle
    constructor
    · rintro ⟨_, hopen, hnames, hmatch⟩
      exact ⟨hopen, hsingle hopen hnames hmatch⟩
    · rintro ⟨hopen, parentRef, href, hnames, hmatch⟩
      exact ⟨hmem, hopen, ⟨parentRef, href, hnames⟩, parentRef, href, hmatch⟩

/-- A listener of a gateway in the namespace `infra`, for all routes. -/
def listenerOf (gwName name : String) (port : ℕ) : GatewayListener where
  name := name
  port := port
  protocol := .http
  hostname := none
  allowedNamespaces := [namespaceAll]
  allowedRouteKinds := [kindHTTPRoute]
  attached := true
  gwName := gwName
  gwNamespace := "infra"
  epName := "web"

/-- A reference to a section of a gateway. -/
def sectionRef (gwName sectionName : String) : ParentReference where
  group := none
  kind := none
  namespaceOf := some "infra"
  name := gwName
  sectionName := some sectionName
  port := none

/-- A route for the section `web` of one gateway and the section `admin` of another. -/
def mixedRoute : HTTPRoute where
  namespaceOf := "apps"
  name := "shop"
  parentRefs := [sectionRef "public" "web", sectionRef "private" "admin"]
  hostnames := []
  rules := []

theorem merged_web :
    listenerOf "public" "web" 80 ∈ [listenerOf "public" "web" 80, listenerOf "public" "admin" 8080] ∧
    ((∃ v ∈ merges [listenerOf "public" "web" 80, listenerOf "public" "admin" 8080] mixedRoute,
        v.listener = listenerOf "public" "web" 80) ↔
      Open mixedRoute (listenerOf "public" "web" 80) ∧
        Selected mixedRoute (listenerOf "public" "web" 80)) := by
  refine ⟨.head _, (merged_iff_selected _ mixedRoute _ (.head _)).mpr ?_⟩
  intro _ _ _
  exact ⟨sectionRef "public" "web", by decide, by decide +kernel, by decide +kernel⟩

/-- The route is attached to the section `admin` of the first gateway. -/
theorem merged_admin :
    (∃ v ∈ merges [listenerOf "public" "web" 80, listenerOf "public" "admin" 8080] mixedRoute,
      v.listener = listenerOf "public" "admin" 8080) ∧
    ¬ Selected mixedRoute (listenerOf "public" "admin" 8080) := by
  constructor
  · exact ⟨⟨listenerOf "public" "admin" 8080, mixedRoute, []⟩, by decide +kernel, rfl⟩
  · rintro ⟨ref, href, hnames, hmatch⟩
    have hnone : ∀ ref ∈ mixedRoute.parentRefs,
        ¬ (ref.namesGateway mixedRoute.namespaceOf (listenerOf "public" "admin" 8080) = true ∧
          matchListener (listenerOf "public" "admin" 8080) ref = true) := by
      decide +kernel
    exact hnone ref href ⟨hnames, hmatch⟩

/-! ## Attached routes

    A listener is listed once for each reference to its gateway, and the references are gone
    through for each time that it is listed. -/

/-- The listeners whose `AttachedRoutes` are counted up for a route. -/
def attachments (gatewayListeners : List GatewayListener) (route : HTTPRoute) :
    List GatewayListener :=
  route.parentRefs.flatMap fun parentRef =>
    (matchingGatewayListeners gatewayListeners route.namespaceOf route.parentRefs).filter
      (accepted · route parentRef)

/-- `AttachedRoutes` of a listener after `loadHTTPRoutes`. -/
def attachedRoutes (gatewayListeners : List GatewayListener) (routes : List HTTPRoute)
    (l : GatewayListener) : ℕ :=
  (routes.flatMap (attachments gatewayListeners)).count l

/-- The references of a route that name the gateway of a listener. -/
def naming (l : GatewayListener) (route : HTTPRoute) : List ParentReference :=
  route.parentRefs.filter (ParentReference.namesGateway route.namespaceOf l)

/-- The references of a route through which a listener accepts it. -/
def accepting (l : GatewayListener) (route : HTTPRoute) : List ParentReference :=
  route.parentRefs.filter (accepted l route)

/-- A reference selects the listener, which allows the route with one of its hostnames. -/
def selects (l : GatewayListener) (route : HTTPRoute) : Bool :=
  (naming l route).any (· ∈ accepting l route)

section Attached

variable {gatewayListeners : List GatewayListener} {l : GatewayListener} {route : HTTPRoute}
  (hnodup : gatewayListeners.Nodup) (hmem : l ∈ gatewayListeners)

theorem sum_map_ite_zero {α : Type} (p : α → Bool) (n : ℕ) (as : List α) :
    (as.map fun a => if p a then n else 0).sum = (as.filter p).length * n := by
  rw [sum_map_ite]
  simp

include hnodup hmem

theorem count_matchingGatewayListeners :
    (matchingGatewayListeners gatewayListeners route.namespaceOf route.parentRefs).count l =
      (naming l route).length := by
  have hcount : ∀ listener, ((naming listener route).map fun _ => listener).count l =
      if listener == l then (naming l route).length else 0 := by
    intro listener
    rw [map_const', count_replicate]
    split <;> simp_all
  rw [matchingGatewayListeners, count_flatMap, ← one_mul (naming l route).length,
    ← count_eq_one_of_mem hnodup hmem, count, countP_eq_length_filter,
    ← sum_map_ite_zero]
  exact congrArg sum (map_congr_left fun listener _ => hcount listener)

/-- A route counts for each pair of references, one that names the gateway of the listener and
    one through which it is accepted. -/
theorem count_attachments : (attachments gatewayListeners route).count l =
    (accepting l route).length * (naming l route).length := by
  have hcount : ∀ ref, ((matchingGatewayListeners gatewayListeners route.namespaceOf
      route.parentRefs).filter (accepted · route ref)).count l =
      if accepted l route ref then (naming l route).length else 0 := by
    intro ref
    rw [← count_matchingGatewayListeners hnodup hmem]
    split
    next h => exact count_filter h
    next h => exact count_eq_zero.mpr fun hl => h (mem_filter.mp hl).2
  simp only [attachments, count_flatMap, Function.comp_def, hcount, sum_map_ite_zero, accepting]

omit hnodup hmem in
theorem selects_le : (selects l route).toNat ≤
    (accepting l route).length * (naming l route).length ∧
    ((accepting l route).length * (naming l route).length = (selects l route).toNat ↔
      naming l route = [] ∨ accepting l route = [] ∨
        ∃ parentRef, naming l route = [parentRef] ∧ accepting l route = [parentRef]) := by
  rw [selects]
  rcases naming l route with _ | ⟨a, as⟩
  · simp
  rcases accepting l route with _ | ⟨b, bs⟩
  · simp [any_eq]
  by_cases hone : as = [] ∧ bs = []
  · obtain ⟨rfl, rfl⟩ := hone
    by_cases h : a = b <;> simp [h, eq_comm]
  · have hlen : 2 ≤ (b :: bs).length * (a :: as).length := by
      rcases as with _ | ⟨a', as⟩ <;> rcases bs with _ | ⟨b', bs⟩ <;>
        simp only [length_cons] at hone ⊢ <;> grind
    have hle := Bool.toNat_le ((a :: as).any (· ∈ b :: bs))
    exact ⟨by omega, fun h => by omega, by grind⟩

/-- **`AttachedRoutes` of a listener is the number of routes that select it** exactly when
    each route that is led to it is led there by a single reference. -/
theorem attachedRoutes_iff (routes : List HTTPRoute) :
    attachedRoutes gatewayListeners routes l = routes.countP (selects l) ↔
      ∀ route ∈ routes, naming l route = [] ∨ accepting l route = [] ∨
        ∃ parentRef, naming l route = [parentRef] ∧ accepting l route = [parentRef] := by
  have hle : routes.countP (selects l) ≤ attachedRoutes gatewayListeners routes l ∧
      (attachedRoutes gatewayListeners routes l = routes.countP (selects l) ↔
        ∀ route ∈ routes, (accepting l route).length * (naming l route).length =
          (selects l route).toNat) := by
    simp only [attachedRoutes]
    induction routes with
    | nil => simp
    | cons route routes ih =>
      have hroute := @selects_le l route
      have hcount : (if selects l route then 1 else 0) = (selects l route).toNat := by
        cases selects l route <;> rfl
      rw [flatMap_cons, count_append, count_attachments hnodup hmem, countP_cons,
        forall_mem_cons, ← ih.2, hcount]
      omega
  rw [hle.2]
  exact forall₂_congr fun route _ => selects_le.2

end Attached

/-- A route with two references to sections of one gateway. -/
def sectionsRoute : HTTPRoute :=
  { mixedRoute with parentRefs := [sectionRef "public" "web", sectionRef "public" "admin"] }

theorem attachedRoutes_mixed :
    [listenerOf "public" "web" 80].Nodup ∧
    attachedRoutes [listenerOf "public" "web" 80] [mixedRoute] (listenerOf "public" "web" 80) =
      [mixedRoute].countP (selects (listenerOf "public" "web" 80)) := by
  refine ⟨nodup_singleton _, (attachedRoutes_iff (nodup_singleton _)
    (.head _) _).mpr ?_⟩
  rintro _ (_ | ⟨_, ⟨⟩⟩)
  exact .inr (.inr ⟨sectionRef "public" "web", by decide +kernel, by decide +kernel⟩)

/-- One route is counted twice for each of the two sections. -/
theorem attachedRoutes_sections :
    attachedRoutes [listenerOf "public" "web" 80, listenerOf "public" "admin" 8080] [sectionsRoute]
      (listenerOf "public" "web" 80) = 2 := by
  decide +kernel

end Ingress.Gateway
