import Ingress.Gateway.Reach
import Ingress.Gateway.SniRule

/-! # TLS Routes

    `tlsroute.go`: each route is loaded for the listeners that accept it, into a configuration of
    its own, which is then merged into the configuration of the provider.  The name of a router
    is made of the route, the gateway, the entry point and the number of the rule; neither the
    listener nor the hostnames are part of it.

    * `loadTLSRoutes`: the code.
    * `TLSVisit.words`, `LoadedBackend.words`: the words that the names of routers and of the
      services of backends are made of.
    * `Served`: the routers have one for a rule and a listener.
    * `served_iff`: they have exactly when a rule will do that no later one with the same words
      has replaced. -/

open List Journal Ingress.Provider Outcome

namespace Ingress.Gateway

/-! ## Routes and configurations -/

inductive TLSModeType where
  | terminate
  | passthrough
  | other (name : String)
  deriving DecidableEq, Repr

/-- `gatewayListener`, with the mode of its TLS configuration. -/
structure TLSListener extends GatewayListener where
  tls : Option (Option TLSModeType)
  deriving DecidableEq

/-- TLS is passed through to the backends. -/
def TLSListener.passthrough (l : TLSListener) : Bool :=
  l.tls = some (some .passthrough)

structure BackendRef where
  group : Option String
  kind : Option String
  namespaceOf : Option String
  name : String
  port : Option ℕ
  weight : Option ℤ
  deriving DecidableEq, Repr

/-- The reference as one of an HTTP route, which has no filters. -/
def BackendRef.toHTTP (ref : BackendRef) : HTTPBackendRef where
  group := ref.group
  kind := ref.kind
  namespaceOf := ref.namespaceOf
  name := ref.name
  port := ref.port
  weight := ref.weight
  filters := []

structure TLSRouteRule where
  backendRefs : List BackendRef
  deriving DecidableEq, Repr

structure TLSRoute where
  namespaceOf : String
  name : String
  parentRefs : List ParentReference
  hostnames : List Hostname
  rules : List TLSRouteRule
  deriving DecidableEq

structure TCPRouter where
  ruleSyntax : String
  rule : String
  priority : ℕ
  entryPoints : List String
  passthrough : Bool
  service : String
  deriving DecidableEq, Repr

structure TCPWRRService where
  name : String
  weight : ℤ
  deriving DecidableEq, Repr

/-- `dynamic.TCPService`, of the kinds that are built here. -/
inductive TCPService where
  | weighted (services : List TCPWRRService)
  | loadBalancer (servers : List String)
  deriving DecidableEq, Repr

/-- `dynamic.TCPConfiguration`, without the maps in which nothing is written here. -/
structure TCPConfiguration where
  routers : Finmap fun _ : String => TCPRouter
  services : Finmap fun _ : String => TCPService

/-- Writes to a configuration, the oldest first. -/
structure TCPWrites where
  routers : List (String × TCPRouter)
  services : List (String × TCPService)

/-- The configuration after writes to an empty one. -/
def TCPWrites.configuration (w : TCPWrites) : TCPConfiguration where
  routers := replay ∅ w.routers
  services := replay ∅ w.services

/-! ## The code -/

def kindTLSRoute : String := "TLSRoute"

variable (cluster : Cluster)

/-- `loadTLSServers`: the addresses of the servers. -/
def loadTLSServers (namespaceName : String) (ref : BackendRef) :
    Except Condition (List String) := do
  let failed (err : String) : String :=
    "Cannot load TLSRoute BackendRef " ++ namespaceName ++ "/" ++ ref.name ++ ": " ++ err
  let (backendAddresses, svcPort) ←
    (getBackendAddresses cluster namespaceName ref.toHTTP).mapError fun err =>
      ⟨"BackendNotFound", failed err⟩
  if svcPort.protocol ≠ "TCP" then
    throw ⟨"UnsupportedProtocol", failed "only TCP protocol is supported"⟩
  pure (backendAddresses.map fun ba => joinHostPort ba.ip (toString ba.port))

def loadTCPBackendRef (ref : BackendRef) : Except String String :=
  if ref.kind = some "IngressService" ∧ '@' ∈ ref.name.toList then .ok ref.name
  else .error ("unsupported BackendRef " ++ ref.group.getD "" ++ "/" ++ ref.kind.getD "" ++ "/" ++
    ref.name)

/-- The name of the service of a backend. -/
def tlsServiceName (namespaceName : String) (ref : BackendRef) : String :=
  normalize cluster.unicode (normalize cluster.unicode (namespaceName ++ "-" ++ ref.name) ++ "-" ++
    toString (ref.port.getD 0))

/-- `loadTLSService`: the name of the service, and its servers when it is one of this provider. -/
def loadTLSService (routeNamespace : String) (ref : BackendRef) :
    Except Condition (String × Option (List String)) :=
  let namespaceName := ref.toHTTP.namespaceIn routeNamespace
  let group := ref.toHTTP.groupOf
  let kind := ref.toHTTP.kindOf
  let path := group ++ "/" ++ kind ++ "/" ++ namespaceName ++ "/" ++ ref.name
  match isReferenceGranted cluster kindTLSRoute routeNamespace group kind ref.name namespaceName with
  | .error err =>
    .error ⟨"RefNotPermitted", "Cannot load TLSRoute BackendRef " ++ path ++ ": " ++ err⟩
  | .ok () =>
    if group ≠ groupCore ∨ kind ≠ kindService then
      match loadTCPBackendRef ref with
      | .error err =>
        .error ⟨"InvalidKind", "Cannot load TLSRoute BackendRef " ++ path ++ ": " ++ err⟩
      | .ok name => .ok (name, none)
    else if ref.port.getD 0 = 0 then
      .error ⟨"UnsupportedProtocol", "Cannot load TLSRoute BackendRef " ++ path ++
        " port is required"⟩
    else
      (loadTLSServers cluster namespaceName ref).map fun servers =>
        (tlsServiceName cluster namespaceName ref, some servers)

/-- The entry of a backend in the weighted service. -/
def tlsEntry (routeNamespace routeKey : String) (ref : BackendRef) : TCPWRRService where
  name :=
    match loadTLSService cluster routeNamespace ref with
    | .error _ => routeKey ++ "-err-lb"
    | .ok (svcName, _) => svcName
  weight := ref.weight.getD 1

/-- What is written for a backend. -/
def tlsBackendWrites (routeNamespace routeKey : String) (ref : BackendRef) :
    List (String × TCPService) :=
  match loadTLSService cluster routeNamespace ref with
  | .error _ => [(routeKey ++ "-err-lb", .loadBalancer [])]
  | .ok (svcName, some servers) => [(svcName, .loadBalancer servers)]
  | .ok (_, none) => []

/-- `loadTLSWRRService`, with the keys of the services that have been written: the condition,
    and the services. -/
def loadTLSWRRService (routeNamespace : String) (known : List String)
    (routeKey : String) (backendRefs : List BackendRef) :
    Option Condition × List (String × TCPService) :=
  let name := routeKey ++ "-wrr"
  if name ∈ known then (none, [])
  else
    let conditions := backendRefs.filterMap fun ref =>
      match loadTLSService cluster routeNamespace ref with
      | .error condition => some condition
      | .ok _ => none
    (conditions.getLast?,
      backendRefs.flatMap (tlsBackendWrites cluster routeNamespace routeKey) ++
        [(name, .weighted (backendRefs.map (tlsEntry cluster routeNamespace routeKey)))])

/-- A route that is loaded for a listener, with the hostnames they have in common. -/
structure TLSVisit where
  listener : TLSListener
  route : TLSRoute
  hostnames : List Hostname
  deriving DecidableEq

/-- The `ri`-th rule of a route. -/
structure TLSStep where
  ri : ℕ
  rule : TLSRouteRule
  deriving DecidableEq, Repr

/-- The loop over the rules of a route.  Those without backends are passed over. -/
def TLSRoute.steps (route : TLSRoute) : List TLSStep :=
  route.rules.zipIdx.filterMap fun (rule, ri) =>
    if rule.backendRefs = [] then none else some ⟨ri, rule⟩

/-- The name of the router of a rule. -/
def TLSVisit.routerName (v : TLSVisit) (s : TLSStep) : String :=
  makeRouterName cluster "" (normalize cluster.unicode ("tlsroute-" ++ v.route.namespaceOf ++ "-" ++
    v.route.name ++ "-gw-" ++ v.listener.gwNamespace ++ "-" ++ v.listener.gwName ++ "-ep-" ++
    v.listener.epName ++ "-" ++ toString s.ri))

/-- The only backend of a rule, when it is a service of the proxy itself. -/
def TLSRouteRule.internalService (rule : TLSRouteRule) : Option String :=
  match rule.backendRefs with
  | [ref] => if isInternalService ref.toHTTP then some ref.name else none
  | _ => none

/-- The router of a rule. -/
def TLSVisit.router (v : TLSVisit) (s : TLSStep) : TCPRouter where
  ruleSyntax := "default"
  rule := (hostSNIRule v.hostnames).1
  priority := (hostSNIRule v.hostnames).2
  entryPoints := [v.listener.epName]
  passthrough := v.listener.passthrough
  service := s.rule.internalService.getD (v.routerName cluster s ++ "-wrr")

/-- One rule: the condition of its backends, and what is written. -/
def TLSVisit.loadRule (v : TLSVisit) (known : List String) (s : TLSStep) :
    Option Condition × TCPWrites :=
  let name := v.routerName cluster s
  let (condition, services) :=
    match s.rule.internalService with
    | some _ => (none, [])
    | none => loadTLSWRRService cluster v.route.namespaceOf known name s.rule.backendRefs
  (condition, ⟨[(name, v.router cluster s)], services⟩)

/-- `loadTLSRoute`: the condition, when it is false, and the writes. -/
def loadTLSRoute (v : TLSVisit) : Option Condition × TCPWrites :=
  v.route.steps.foldl (fun (condition, conf) s =>
    let (condition', writes) := v.loadRule cluster (conf.services.map Prod.fst) s
    (condition'.or condition,
      ⟨conf.routers ++ writes.routers, conf.services ++ writes.services⟩)) (none, ⟨[], []⟩)

def mergeTCPConfiguration (source target : TCPConfiguration) : TCPConfiguration where
  routers := source.routers ∪ target.routers
  services := source.services ∪ target.services

/-- A listener accepts a route through a reference. -/
def acceptedTLS (listener : TLSListener) (route : TLSRoute) (parentRef : ParentReference) : Bool :=
  matchListener listener.toGatewayListener parentRef &&
    allowRoute listener.toGatewayListener route.namespaceOf kindTLSRoute &&
    (findMatchingHostnames listener.hostname route.hostnames).2

/-- `matchingGatewayListeners`. -/
def matchingTLSListeners (gatewayListeners : List TLSListener) (routeNamespace : String)
    (parentRefs : List ParentReference) : List TLSListener :=
  gatewayListeners.flatMap fun listener =>
    (parentRefs.filter (ParentReference.namesGateway routeNamespace
      listener.toGatewayListener)).map fun _ => listener

/-- The configurations of a route that are merged: for each reference, and each listener of a
    gateway that some reference names. -/
def tlsMerges (gatewayListeners : List TLSListener) (route : TLSRoute) : List TLSVisit :=
  route.parentRefs.flatMap fun parentRef =>
    (matchingTLSListeners gatewayListeners route.namespaceOf route.parentRefs).filterMap
      fun listener =>
        if acceptedTLS listener route parentRef && listener.attached then
          some ⟨listener, route, (findMatchingHostnames listener.hostname route.hostnames).1⟩
        else none

/-- All visits, in the order of `loadTLSRoutes`. -/
def tlsVisits (gatewayListeners : List TLSListener) (routes : List TLSRoute) : List TLSVisit :=
  routes.flatMap (tlsMerges gatewayListeners)

def loadTLSRoutes (gatewayListeners : List TLSListener)
    (routes : List TLSRoute) (conf : TCPConfiguration) : TCPConfiguration :=
  (tlsVisits gatewayListeners routes).foldl (fun conf v =>
    mergeTCPConfiguration (loadTLSRoute cluster v).2.configuration conf) conf

/-! ## Keys -/

section Keys

variable {cluster : Cluster}

variable {v : TLSVisit}

open TLSVisit

/-- The names of the routers of one visit tell the rules apart. -/
theorem tls_routerName_ri {s s' : TLSStep}
    (h : v.routerName cluster s = v.routerName cluster s') : s.ri = s'.ri := by
  obtain ⟨front, hfront⟩ := normalize_append_nat cluster.unicode ("tlsroute-" ++
    v.route.namespaceOf ++ "-" ++ v.route.name ++ "-gw-" ++ v.listener.gwNamespace ++ "-" ++
    v.listener.gwName ++ "-ep-" ++ v.listener.epName)
  have heq := congrArg String.toList h
  simp only [routerName, makeRouterName, hfront, String.toList_append] at heq
  have hnumbers := append_cancel_left (append_cancel_right (append_cancel_right heq))
  have hvals := congrArg (fun digits => Nat.ofDigitChars 10 digits 0) hnumbers
  simpa [Nat.toString_eq_ofList_toDigits] using hvals

/-- The name of a service of a backend ends in a digit. -/
theorem tlsServiceName_last (ns : String) (ref : BackendRef) :
    ∃ c, c.isDigit = true ∧
      (tlsServiceName cluster ns ref).toList.getLast? = some c :=
  normalize_nat_last cluster.unicode _ _

theorem ne_tlsServiceName {k : String} {d : Char} (hlast : k.toList.getLast? = some d)
    (hd : d.isDigit = false) (ns : String) (ref : BackendRef) : k ≠ tlsServiceName cluster ns ref := by
  rintro rfl
  obtain ⟨c, hdigit, hc⟩ := @tlsServiceName_last cluster ns ref
  obtain rfl : d = c := Option.some.inj (hlast.symm.trans hc)
  rw [hdigit] at hd
  cases hd

theorem name_of_loadTLSService {ns : String} {ref : BackendRef} {svcName : String}
    {servers : List String} (h : loadTLSService cluster ns ref = .ok (svcName, some servers)) :
    svcName = tlsServiceName cluster (ref.toHTTP.namespaceIn ns) ref := by
  cases hgranted : isReferenceGranted cluster kindTLSRoute ns ref.toHTTP.groupOf
      ref.toHTTP.kindOf ref.name (ref.toHTTP.namespaceIn ns) with
  | error err =>
    simp only [loadTLSService, hgranted] at h
    cases h
  | ok granted =>
    simp only [loadTLSService, hgranted] at h
    split at h
    · split at h <;> cases h
    · split at h
      · cases h
      · obtain ⟨servers', -, heq⟩ := ok_of_exceptMap h
        exact (Prod.mk.inj heq).1.symm

/-- The services that a rule writes. -/
def TLSVisit.services (cluster : Cluster) (v : TLSVisit) (s : TLSStep) :
    List (String × TCPService) :=
  let name := v.routerName cluster s
  match s.rule.internalService with
  | some _ => []
  | none =>
    s.rule.backendRefs.flatMap (tlsBackendWrites cluster v.route.namespaceOf name) ++
      [(name ++ "-wrr",
        .weighted (s.rule.backendRefs.map (tlsEntry cluster v.route.namespaceOf name)))]

variable {service : TCPService} {s : TLSStep}

/-- The keys of the services: that of the weighted service, those of backends that cannot be
    loaded, and those of backends. -/
theorem mem_tlsServices {k : String} (h : (k, service) ∈ v.services cluster s) :
    (s.rule.internalService = none ∧ k = v.routerName cluster s ++ "-wrr" ∧
      service = .weighted (s.rule.backendRefs.map
        (tlsEntry cluster v.route.namespaceOf (v.routerName cluster s)))) ∨
    (k = v.routerName cluster s ++ "-err-lb" ∧ service = .loadBalancer []) ∨
    ∃ ns ref, k = tlsServiceName cluster ns ref := by
  unfold services at h
  split at h
  · cases h
  · next hint =>
    rcases mem_append.mp h with h | h
    · right
      obtain ⟨ref, -, h⟩ := mem_flatMap.mp h
      unfold tlsBackendWrites at h
      split at h
      · obtain ⟨rfl, rfl⟩ := Prod.mk.inj (mem_singleton.mp h)
        exact .inl ⟨rfl, rfl⟩
      · next hload =>
        obtain ⟨rfl, -⟩ := Prod.mk.inj (mem_singleton.mp h)
        exact .inr ⟨_, ref, name_of_loadTLSService hload⟩
      · cases h
    · obtain ⟨rfl, rfl⟩ := Prod.mk.inj (mem_singleton.mp h)
      exact .inl ⟨hint, rfl, rfl⟩

/-- A service that ends in `-wrr` is the weighted service of a rule. -/
theorem of_wrr_mem {x : String} (h : (x ++ "-wrr", service) ∈ v.services cluster s) :
    s.rule.internalService = none ∧ v.routerName cluster s = x ∧
      service = .weighted (s.rule.backendRefs.map
        (tlsEntry cluster v.route.namespaceOf (v.routerName cluster s))) := by
  have hlast : (x ++ "-wrr").toList.getLast? = some 'r' := by simp
  rcases mem_tlsServices h with ⟨hint, hname, hsvc⟩ | ⟨herr, -⟩ | ⟨ns, ref, hkey⟩
  · refine ⟨hint, ?_, hsvc⟩
    apply String.toList_injective
    have heq := congrArg String.toList hname
    rw [String.toList_append, String.toList_append] at heq
    exact (append_cancel_right heq).symm
  · rw [herr, String.toList_append] at hlast
    have hb : ((v.routerName cluster s).toList ++ "-err-lb".toList).getLast? = some 'b' := by simp
    rw [hb] at hlast
    cases hlast
  · exact absurd hkey (ne_tlsServiceName hlast (by decide) ns ref)

/-- No service has the name of a service of the proxy itself. -/
theorem internal_not_mem {x : String}
    (hx : "@internal".toList.isSuffixOf x.toList = true) : (x, service) ∉ v.services cluster s := by
  intro h
  obtain ⟨front, hfront⟩ := isSuffixOf_iff_suffix.mp hx
  have hlast : x.toList.getLast? = some 'l' := by
    rw [← hfront]
    simp
  rcases mem_tlsServices h with ⟨-, rfl, -⟩ | ⟨rfl, -⟩ | ⟨ns, ref, rfl⟩
  · simp at hlast
  · simp at hlast
  · exact ne_tlsServiceName hlast (by decide) ns ref rfl

/-! ## What the configuration holds -/

theorem steps_pairwise (route : TLSRoute) : route.steps.Pairwise fun s s' => s.ri ≠ s'.ri := by
  have hindices : route.rules.zipIdx.Pairwise fun x y => x.2 ≠ y.2 := by
    have hnd : (route.rules.zipIdx.map Prod.snd).Nodup := by
      rw [zipIdx_map_snd]
      exact nodup_range'
    exact pairwise_map.mp hnd
  refine hindices.filterMap _ ?_
  rintro ⟨rule, ri⟩ ⟨rule', ri'⟩ hne s hs s' hs'
  simp only [Option.ite_none_left_eq_some, Option.some.injEq] at hs hs'
  obtain ⟨-, rfl⟩ := hs
  obtain ⟨-, rfl⟩ := hs'
  exact hne

theorem loadRule_eq {known : List String} (h : v.routerName cluster s ++ "-wrr" ∉ known) :
    (v.loadRule cluster known s).2 =
      ⟨[(v.routerName cluster s, v.router cluster s)], v.services cluster s⟩ := by
  unfold loadRule services
  cases s.rule.internalService with
  | some name => rfl
  | none => simp only [loadTLSWRRService, if_neg h]

/-- The writes of a route: no weighted service is there before it is loaded. -/
theorem loadTLSRoute_eq (v : TLSVisit) :
    (loadTLSRoute cluster v).2 =
      ⟨v.route.steps.map fun s => (v.routerName cluster s, v.router cluster s),
        v.route.steps.flatMap (v.services cluster)⟩ := by
  have hrun : ∀ (steps : List TLSStep) (cond : Option Condition) (conf : TCPWrites),
      steps.Pairwise (fun s s' => s.ri ≠ s'.ri) →
      (∀ s ∈ steps, v.routerName cluster s ++ "-wrr" ∉ conf.services.map Prod.fst) →
      (steps.foldl (fun (cond, conf) s =>
        let (condition', writes) := v.loadRule cluster (conf.services.map Prod.fst) s
        (condition'.or cond,
          (⟨conf.routers ++ writes.routers, conf.services ++ writes.services⟩ : TCPWrites)))
        (cond, conf)).2 =
      ⟨conf.routers ++ steps.map fun s => (v.routerName cluster s, v.router cluster s),
        conf.services ++ steps.flatMap (v.services cluster)⟩ := by
    intro steps
    induction steps with
    | nil => intro cond conf _ _; simp
    | cons s steps ih =>
      intro cond conf hpairwise hfresh
      rw [pairwise_cons] at hpairwise
      have hrule := loadRule_eq (hfresh s (.head _))
      rw [foldl_cons, ih _ _ hpairwise.2]
      · simp [hrule]
      · -- the names of the weighted services of other rules differ
        intro s' hs'
        simp only [hrule, map_append, mem_append, not_or]
        refine ⟨hfresh s' (.tail _ hs'), ?_⟩
        intro hmem
        obtain ⟨⟨k, svc⟩, hw, rfl⟩ := mem_map.mp hmem
        exact hpairwise.1 s' hs' (tls_routerName_ri (of_wrr_mem hw).2.1)
  have hall := hrun v.route.steps none ⟨[], []⟩ (steps_pairwise v.route) (by simp)
  rw [loadTLSRoute, hall]
  simp

/-- The rules that are loaded, in order. -/
def tlsSteps (vs : List TLSVisit) : List (TLSVisit × TLSStep) :=
  vs.flatMap fun v => v.route.steps.map fun s => (v, s)

/-- The names of the routers, each with the rule it is built for. -/
def tlsBuilt (cluster : Cluster) (vs : List TLSVisit) : List (String × (TLSVisit × TLSStep)) :=
  (tlsSteps vs).map fun b => (b.1.routerName cluster b.2, b)

/-- The services that are written. -/
def tlsServices (cluster : Cluster) (vs : List TLSVisit) : List (String × TCPService) :=
  (tlsSteps vs).flatMap fun b => b.1.services cluster b.2

/-- No routers and no services. -/
def emptyTCP : TCPConfiguration where
  routers := ∅
  services := ∅

section Lookup

variable (gatewayListeners : List TLSListener) (routes : List TLSRoute) (k : String)

theorem lookup_tcpServices :
    (loadTLSRoutes cluster gatewayListeners routes emptyTCP).services.lookup k =
      last k (tlsServices cluster (tlsVisits gatewayListeners routes)) := by
  have hsvcs : tlsServices cluster (tlsVisits gatewayListeners routes) =
      (tlsVisits gatewayListeners routes).flatMap fun v => (loadTLSRoute cluster v).2.services := by
    simp only [tlsServices, tlsSteps, flatMap_assoc, flatMap_map, loadTLSRoute_eq]
  rw [hsvcs]
  exact lookup_copy TCPConfiguration.services (fun _ _ => rfl) rfl ..

/-- **Every router** is that of the rule built last under its name. -/
theorem lookup_tcpRouters :
    (loadTLSRoutes cluster gatewayListeners routes emptyTCP).routers.lookup k =
      (last k (tlsBuilt cluster (tlsVisits gatewayListeners routes))).map fun b =>
        b.1.router cluster b.2 := by
  have hrouters : (tlsBuilt cluster (tlsVisits gatewayListeners routes)).map
        (fun w => (w.1, w.2.1.router cluster w.2.2)) =
      (tlsVisits gatewayListeners routes).flatMap fun v => (loadTLSRoute cluster v).2.routers := by
    simp only [tlsBuilt, tlsSteps, map_flatMap, map_map, loadTLSRoute_eq]
    rfl
  rw [← last_map, hrouters]
  exact lookup_copy TCPConfiguration.routers (fun _ _ => rfl) rfl ..

end Lookup

/-- **The weighted service** of a router that is left is its own. -/
theorem last_wrr {vs : List TLSVisit} {name : String}
    (h : last name (tlsBuilt cluster vs) = some (v, s)) (hint : s.rule.internalService = none) :
    last (name ++ "-wrr") (tlsServices cluster vs) = some (.weighted (s.rule.backendRefs.map
      (tlsEntry cluster v.route.namespaceOf name))) := by
  obtain ⟨pre, _, after, hsplit, hname, rfl, hafter⟩ := last_map_iff.mp h
  have hnone : last (name ++ "-wrr") (after.flatMap fun b => b.1.services cluster b.2) = none := by
    rw [last_eq_none_iff]
    intro hmem
    obtain ⟨⟨k, svc⟩, hw, rfl⟩ := mem_map.mp hmem
    obtain ⟨b, hb, hw⟩ := mem_flatMap.mp hw
    exact hafter b hb (of_wrr_mem hw).2.1
  have hown : v.services cluster s = s.rule.backendRefs.flatMap
        (tlsBackendWrites cluster v.route.namespaceOf name) ++
      [(name ++ "-wrr", .weighted (s.rule.backendRefs.map
        (tlsEntry cluster v.route.namespaceOf name)))] := by
    rw [services, hint]
    simp only [hname]
  rw [tlsServices, hsplit, flatMap_append, flatMap_cons, last_append, last_append, hnone,
    Option.none_or, hown, last_append]
  simp [last]

/-! ## Names and words -/

/-- The words of the name of a router. -/
def TLSVisit.words (cluster : Cluster) (v : TLSVisit) (s : TLSStep) : List (List Char) :=
  ["tlsroute".toList] ++ fields cluster.unicode v.route.namespaceOf.toList ++
    fields cluster.unicode v.route.name.toList ++ ["gw".toList] ++
    fields cluster.unicode v.listener.gwNamespace.toList ++
    fields cluster.unicode v.listener.gwName.toList ++ ["ep".toList] ++
    fields cluster.unicode v.listener.epName.toList ++ [(toString s.ri).toList]

/-- A backend whose servers are loaded. -/
structure LoadedBackend where
  namespaceOf : String
  ref : BackendRef
  servers : List String

/-- The words of the name of the service of a backend. -/
def backendWords (cluster : Cluster) (namespaceName : String) (ref : BackendRef) : List (List Char) :=
  fields cluster.unicode namespaceName.toList ++ fields cluster.unicode ref.name.toList ++
    [(toString (ref.port.getD 0)).toList]

theorem fields_alphanum {u : Unicode} (word : String) (hne : word ≠ "")
    (hword : word.toList.all Char.isAlphanum = true) : fields u word.toList = [word.toList] :=
  fields_word (by simpa using hne) fun c hc => isWord_of_isAlphanum (all_eq_true.mp hword c hc)

theorem fields_toString {u : Unicode} (n : ℕ) : fields u (toString n).toList = [(toString n).toList] :=
  fields_word (by simp) (isWord_toString u n)

/-- **Routers have the same name** exactly when they have the same words. -/
theorem tls_routerName_inj {v' : TLSVisit} {s' : TLSStep} :
    v.routerName cluster s = v'.routerName cluster s' ↔ v.words cluster s = v'.words cluster s' := by
  have hfields : ∀ (v : TLSVisit) (s : TLSStep), fields cluster.unicode ("tlsroute-" ++
      v.route.namespaceOf ++ "-" ++ v.route.name ++ "-gw-" ++ v.listener.gwNamespace ++ "-" ++
      v.listener.gwName ++ "-ep-" ++ v.listener.epName ++ "-" ++ toString s.ri).toList =
      v.words cluster s := by
    intro v s
    -- a dash ends a word, also those that stand between the names
    have hlist : ("tlsroute-" ++ v.route.namespaceOf ++ "-" ++ v.route.name ++ "-gw-" ++
        v.listener.gwNamespace ++ "-" ++ v.listener.gwName ++ "-ep-" ++ v.listener.epName ++ "-" ++
        toString s.ri) = "tlsroute" ++ "-" ++ v.route.namespaceOf ++ "-" ++ v.route.name ++ "-" ++
        "gw" ++ "-" ++ v.listener.gwNamespace ++ "-" ++ v.listener.gwName ++ "-" ++ "ep" ++ "-" ++
        v.listener.epName ++ "-" ++ toString s.ri := by
      apply String.toList_injective
      simp
    rw [hlist]
    simp only [fields_dash, fields_toString, TLSVisit.words,
      fields_alphanum "tlsroute" (by decide) (by decide),
      fields_alphanum "gw" (by decide) (by decide),
      fields_alphanum "ep" (by decide) (by decide)]
  rw [← hfields, ← hfields, ← normalize_eq_iff]
  refine ⟨fun h => ?_, fun h => by rw [routerName, h, routerName]⟩
  apply String.toList_injective
  -- the hash is that of the empty rule for every router
  have heq := congrArg String.toList h
  simp only [routerName, makeRouterName, String.toList_append] at heq
  exact append_cancel_right (append_cancel_right heq)

theorem tlsServiceName_inj {ns ns' : String} {ref ref' : BackendRef} :
    tlsServiceName cluster ns ref = tlsServiceName cluster ns' ref' ↔
      backendWords cluster ns ref = backendWords cluster ns' ref' := by
  simp only [tlsServiceName, normalize_eq_iff, fields_dash, fields_normalize, fields_toString,
    backendWords]

/-- The backends of a rule whose servers are loaded. -/
def TLSVisit.backends (cluster : Cluster) (v : TLSVisit) (s : TLSStep) : List LoadedBackend :=
  match s.rule.internalService with
  | some _ => []
  | none => s.rule.backendRefs.filterMap fun ref =>
    match loadTLSService cluster v.route.namespaceOf ref with
    | .ok (_, some servers) => some ⟨ref.toHTTP.namespaceIn v.route.namespaceOf, ref, servers⟩
    | _ => none

/-- All of them, in the order in which they are loaded. -/
def tlsBackends (cluster : Cluster) (vs : List TLSVisit) : List LoadedBackend :=
  (tlsSteps vs).flatMap fun b => b.1.backends cluster b.2

/-- **The service of a backend** is that of the last one with its words. -/
theorem last_tlsBackend (vs : List TLSVisit) (ns : String) (ref : BackendRef) :
    last (tlsServiceName cluster ns ref) (tlsServices cluster vs) =
      last (tlsServiceName cluster ns ref) ((tlsBackends cluster vs).map fun b =>
        (tlsServiceName cluster b.namespaceOf b.ref, .loadBalancer b.servers)) := by
  -- the names of the other services do not end in a digit
  have hwrr : ∀ x, tlsServiceName cluster ns ref ≠ x ++ "-wrr" := fun x =>
    (@ne_tlsServiceName cluster (x ++ "-wrr") 'r' (by simp) (by decide) ns ref).symm
  have herr : ∀ x, tlsServiceName cluster ns ref ≠ x ++ "-err-lb" := fun x =>
    (@ne_tlsServiceName cluster (x ++ "-err-lb") 'b' (by simp) (by decide) ns ref).symm
  rw [tlsBackends, map_flatMap]
  refine last_flatMap_congr fun b _ => ?_
  unfold services backends
  split
  · rfl
  rw [last_append, last_eq_none_iff.mpr (by simp [hwrr]),
    Option.none_or, map_filterMap, filterMap_eq_flatMap_toList]
  refine last_flatMap_congr fun ref' _ => ?_
  unfold tlsBackendWrites
  split
  · next hload =>
    rw [last_eq_none_iff.mpr (by simp [herr])]
    simp [hload, last]
  · next hload => simp [hload, name_of_loadTLSService hload]
  · next hload => simp [hload]

end Keys

/-! ## Serving a rule on a listener -/

/-- An entry of a weighted service is for a backend: it has its weight, and leads to its servers,
    to none when it cannot be loaded, or to a service of another provider. -/
def EntryFor (cluster : Cluster) (found : String → Option TCPService) (routeNamespace : String)
    (ref : BackendRef) (entry : TCPWRRService) : Prop :=
  entry.weight = ref.weight.getD 1 ∧
    match loadTLSService cluster routeNamespace ref with
    | .error _ => found entry.name = some (.loadBalancer [])
    | .ok (name, none) => entry.name = name
    | .ok (_, some servers) => found entry.name = some (.loadBalancer servers)

/-- A service leads to the backends of a rule. -/
def LeadsTo (cluster : Cluster) (found : String → Option TCPService) (routeNamespace : String)
    (rule : TLSRouteRule) (service : String) : Prop :=
  match rule.internalService with
  | some name => service = name
  | none => ∃ entries, found service = some (.weighted entries) ∧
      List.Forall₂ (EntryFor cluster found routeNamespace) rule.backendRefs entries

/-- The routers have one for a rule of a route on a listener: on its entry point, in its mode,
    with the backends of the rule, and for all server names that the listener and the route
    have in common. -/
def Served (cluster : Cluster) (env : SniEnv) (conf : TCPConfiguration) (v : TLSVisit)
    (rule : TLSRouteRule) : Prop :=
  ∃ name router, conf.routers.lookup name = some router ∧
    router.entryPoints = [v.listener.epName] ∧ router.passthrough = v.listener.passthrough ∧
    LeadsTo cluster (fun k => conf.services.lookup k) v.route.namespaceOf rule router.service ∧
    ∀ t, IsServerName t → CoveredBy v.hostnames t → RuleMatches env router.rule t

/-- Where a backend leads: to servers, or to a service of another provider. -/
inductive Target where
  | servers (servers : List String)
  | service (name : String)
  deriving DecidableEq, Repr

/-- Where a backend is to lead; to no servers when it cannot be loaded. -/
def targetOf (cluster : Cluster) (routeNamespace : String) (ref : BackendRef) : Target :=
  match loadTLSService cluster routeNamespace ref with
  | .error _ => .servers []
  | .ok (name, none) => .service name
  | .ok (_, some servers) => .servers servers

/-- Where a backend leads at the end: to the servers of the last backend with its words. -/
def EndsAt (cluster : Cluster) (vs : List TLSVisit) (routeNamespace : String) (ref : BackendRef)
    (target : Target) : Prop :=
  match loadTLSService cluster routeNamespace ref with
  | .error _ => target = .servers []
  | .ok (name, none) => target = .service name
  | .ok (_, some _) =>
    let words := backendWords cluster (ref.toHTTP.namespaceIn routeNamespace) ref
    ∃ before b after, tlsBackends cluster vs = before ++ b :: after ∧
      backendWords cluster b.namespaceOf b.ref = words ∧ target = .servers b.servers ∧
      ∀ b' ∈ after, backendWords cluster b'.namespaceOf b'.ref ≠ words

/-- The rule of a step leads to the backends of `rule` at the end: to the same service of the
    proxy, or backend by backend, with their weights, to where they are to lead. -/
def StandsFor (cluster : Cluster) (vs : List TLSVisit) (b : TLSVisit × TLSStep)
    (routeNamespace : String) (rule : TLSRouteRule) : Prop :=
  b.2.rule.internalService = rule.internalService ∧
    (rule.internalService = none →
      List.Forall₂ (fun ref ref' => ref'.weight.getD 1 = ref.weight.getD 1 ∧
          EndsAt cluster vs b.1.route.namespaceOf ref' (targetOf cluster routeNamespace ref))
        rule.backendRefs b.2.rule.backendRefs)

/-- A cluster whose hashes are in hexadecimal. -/
structure TLSCluster extends Cluster where
  hash_hex : ∀ rule, '@' ∉ (hash rule).toList

theorem internalService_suffix {rule : TLSRouteRule} {name : String}
    (h : rule.internalService = some name) : "@internal".toList.isSuffixOf name.toList = true := by
  unfold TLSRouteRule.internalService at h
  split at h
  · split at h
    · next hint =>
      cases h
      simp only [isInternalService, Bool.and_eq_true] at hint
      exact hint.2
    · cases h
  · cases h

theorem forall₂_congr_right {α : Type u} {β : Type w} {R S : α → β → Prop} {l : List α} {l' : List β}
    (h : ∀ a b, b ∈ l' → (R a b ↔ S a b)) : List.Forall₂ R l l' ↔ List.Forall₂ S l l' := by
  induction l' generalizing l with
  | nil => simp
  | cons b l' ih =>
    cases l with
    | nil => simp
    | cons a l =>
      rw [forall₂_cons, forall₂_cons, h a b (.head _), ih fun a b hb => h a b (.tail _ hb)]

section Served

variable {cluster : TLSCluster} {env : SniEnv} {vs : List TLSVisit} {name : String}
  {v v' : TLSVisit} {s : TLSStep} {rule : TLSRouteRule}

/-! The name of a service of another provider has an at sign; no other name has one. -/

theorem at_mem_of_external {cluster : Cluster} {ns : String} {ref : BackendRef}
    (h : loadTLSService cluster ns ref = .ok (name, none)) : '@' ∈ name.toList := by
  cases hgranted : isReferenceGranted cluster kindTLSRoute ns ref.toHTTP.groupOf
      ref.toHTTP.kindOf ref.name (ref.toHTTP.namespaceIn ns) with
  | error err =>
    simp only [loadTLSService, hgranted] at h
    cases h
  | ok granted =>
    simp only [loadTLSService, hgranted, loadTCPBackendRef] at h
    split at h
    · split at h
      · cases h
      · next hname =>
        split at hname
        · next hat =>
          cases hname
          cases h
          exact hat.2
        · cases hname
    · split at h
      · cases h
      · obtain ⟨servers, -, heq⟩ := ok_of_exceptMap h
        cases (Prod.mk.inj heq).2

theorem at_not_mem_normalize (u : Unicode) (name : String) : '@' ∉ (normalize u name).toList :=
  not_mem_normalize (u.ascii '@' (by decide)) (by decide) name

theorem at_not_mem_routerName : '@' ∉ (v.routerName cluster.toCluster s).toList := by
  simp [TLSVisit.routerName, makeRouterName, at_not_mem_normalize, cluster.hash_hex]

theorem at_not_mem_tlsServiceName (ns : String) (ref : BackendRef) :
    '@' ∉ (tlsServiceName cluster.toCluster ns ref).toList :=
  at_not_mem_normalize _ _

theorem last_external (h : '@' ∈ name.toList) : last name (tlsServices cluster.toCluster vs) = none := by
  rw [last_eq_none_iff]
  intro hmem
  obtain ⟨⟨k, svc⟩, hw, hk⟩ := mem_map.mp hmem
  obtain rfl : k = name := hk
  obtain ⟨b, -, hw⟩ := mem_flatMap.mp hw
  have hnot : '@' ∉ k.toList := by
    rcases mem_tlsServices hw with ⟨-, rfl, -⟩ | ⟨rfl, -⟩ | ⟨ns, ref, rfl⟩
    · simp [at_not_mem_routerName]
    · simp [at_not_mem_routerName]
    · exact at_not_mem_tlsServiceName ns ref
  exact hnot h

/-- The service of a backend that cannot be loaded has no servers. -/
theorem last_err {cluster : Cluster} {b : TLSVisit × TLSStep} (hb : b ∈ tlsSteps vs)
    (hint : b.2.rule.internalService = none) {ref : BackendRef} (href : ref ∈ b.2.rule.backendRefs)
    {condition : Condition} (herr : loadTLSService cluster b.1.route.namespaceOf ref = .error condition) :
    last (b.1.routerName cluster b.2 ++ "-err-lb") (tlsServices cluster vs) =
      some (.loadBalancer []) := by
  refine last_of_forall (mem_flatMap.mpr ⟨b, hb, ?_⟩) fun svc hsvc => ?_
  · simp only [TLSVisit.services, hint]
    refine mem_append_left _ (mem_flatMap.mpr ⟨ref, href, ?_⟩)
    simp [tlsBackendWrites, herr]
  · obtain ⟨b', -, hw⟩ := mem_flatMap.mp hsvc
    rcases mem_tlsServices hw with ⟨-, hkey, -⟩ | ⟨-, rfl⟩ | ⟨ns, ref', hkey⟩
    · have hlast := congrArg (fun k => k.toList.getLast?) hkey
      simp at hlast
    · rfl
    · have hlast : (b.1.routerName cluster b.2 ++ "-err-lb").toList.getLast? = some 'b' := by simp
      exact absurd hkey (ne_tlsServiceName hlast (by decide) ns ref')

/-- The service under a name leads to a target. -/
def EntryLeadsTo (services : List (String × TCPService)) (name : String) : Target → Prop
  | .servers servers => last name services = some (.loadBalancer servers)
  | .service service => name = service

theorem entryFor_iff_leadsTo {cluster : Cluster} {found : List (String × TCPService)} (ns : String)
    (ref : BackendRef) (entry : TCPWRRService) :
    EntryFor cluster (fun k => last k found) ns ref entry ↔
      entry.weight = ref.weight.getD 1 ∧ EntryLeadsTo found entry.name (targetOf cluster ns ref) := by
  unfold EntryFor targetOf
  split <;> rfl

theorem at_mem_of_targetOf {cluster : Cluster} {ns : String} {ref : BackendRef}
    (h : targetOf cluster ns ref = .service name) : '@' ∈ name.toList := by
  unfold targetOf at h
  split at h
  · cases h
  · next hload =>
    cases h
    exact at_mem_of_external hload
  · cases h

/-- **An entry leads to a backend** exactly when its own backend ends there. -/
theorem entryFor_iff {b : TLSVisit × TLSStep} (hb : b ∈ tlsSteps vs)
    (hint : b.2.rule.internalService = none) {ref' : BackendRef} (href : ref' ∈ b.2.rule.backendRefs)
    (ns : String) (ref : BackendRef) :
    EntryFor cluster.toCluster (fun k => last k (tlsServices cluster.toCluster vs)) ns ref
        (tlsEntry cluster.toCluster b.1.route.namespaceOf (b.1.routerName cluster.toCluster b.2) ref') ↔
      ref'.weight.getD 1 = ref.weight.getD 1 ∧ EndsAt cluster.toCluster vs b.1.route.namespaceOf ref'
        (targetOf cluster.toCluster ns ref) := by
  rw [entryFor_iff_leadsTo]
  refine and_congr_right fun _ => ?_
  -- a backend that cannot be loaded, one of another provider, one with servers
  unfold EndsAt tlsEntry
  cases hload : loadTLSService cluster.toCluster b.1.route.namespaceOf ref' with
  | error condition =>
    have hlast := last_err hb hint href hload
    cases htarget : targetOf cluster.toCluster ns ref with
    | servers l => simp [EntryLeadsTo, hlast, eq_comm]
    | service name =>
      have hat := at_mem_of_targetOf htarget
      refine iff_of_false ?_ nofun
      rintro rfl
      simp [at_not_mem_routerName] at hat
  | ok loaded =>
    obtain ⟨svcName, servers⟩ := loaded
    cases servers with
    | none =>
      have hlast := @last_external cluster vs svcName (at_mem_of_external hload)
      cases htarget : targetOf cluster.toCluster ns ref with
      | servers l => simp [EntryLeadsTo, hlast]
      | service name => simp [EntryLeadsTo, eq_comm]
    | some servers =>
      have hname := name_of_loadTLSService hload
      cases htarget : targetOf cluster.toCluster ns ref with
      | servers l =>
        simp only [EntryLeadsTo, hname, last_tlsBackend, last_map_iff, tlsServiceName_inj, ne_eq,
          TCPService.loadBalancer.injEq, Target.servers.injEq, @eq_comm _ l]
      | service name =>
        have hat := at_mem_of_targetOf htarget
        have hne : svcName ≠ name := by
          rintro rfl
          rw [hname] at hat
          simp [at_not_mem_tlsServiceName] at hat
        simp [EntryLeadsTo, hne]

theorem last_internal {cluster : Cluster} (h : rule.internalService = some name) :
    last name (tlsServices cluster vs) = none := by
  rw [last_eq_none_iff]
  intro hmem
  obtain ⟨⟨k, svc⟩, hw, rfl⟩ := mem_map.mp hmem
  obtain ⟨b, -, hw⟩ := mem_flatMap.mp hw
  exact internal_not_mem (internalService_suffix h) hw

theorem leadsTo_iff_standsFor {b : TLSVisit × TLSStep}
    (h : last name (tlsBuilt cluster.toCluster vs) = some b) (ns : String) (rule : TLSRouteRule) :
    LeadsTo cluster.toCluster (fun k => last k (tlsServices cluster.toCluster vs)) ns rule
        (b.1.router cluster.toCluster b.2).service ↔
      StandsFor cluster.toCluster vs b ns rule := by
  obtain ⟨before, b, after, hsplit, hname, rfl, -⟩ := last_map_iff.mp h
  have hb : b ∈ tlsSteps vs := hsplit ▸ mem_append_right before (.head after)
  have hsvc : (b.1.router cluster.toCluster b.2).service =
      b.2.rule.internalService.getD (name ++ "-wrr") := by
    rw [← hname]
    rfl
  rw [hsvc, StandsFor, LeadsTo]
  cases hrule : rule.internalService with
  | some internal =>
    cases hs : b.2.rule.internalService with
    | some internal' => simp
    | none =>
      -- the name of a weighted service is not that of a service of the proxy
      have hne : name ++ "-wrr" ≠ internal := by
        rintro rfl
        obtain ⟨front, hfront⟩ := isSuffixOf_iff_suffix.mp (internalService_suffix hrule)
        have hlast := congrArg getLast? hfront
        simp at hlast
      simp [hne]
  | none =>
    cases hs : b.2.rule.internalService with
    | some internal => simp [last_internal hs]
    | none =>
      -- entry by entry, in the order of the backends
      rw [Option.getD_none, last_wrr h hs]
      simp only [Option.some.injEq, TCPService.weighted.injEq, exists_eq_left', true_and, forall_const,
        forall₂_map_right_iff, ← hname]
      exact forall₂_congr_right fun ref ref' hmem => entryFor_iff hb hs hmem ns ref

/-- **A rule is served on a listener** exactly when some rule, which no later one with the same
    words has replaced, is loaded for a listener with this entry point and mode, covers the
    server names, and stands for the backends. -/
theorem served_iff (cluster : TLSCluster) (env : SniEnv) (gatewayListeners : List TLSListener)
    (routes : List TLSRoute) (v : TLSVisit) (rule : TLSRouteRule) :
    Served cluster.toCluster env
        (loadTLSRoutes cluster.toCluster gatewayListeners routes emptyTCP) v rule ↔
      ∃ before b after, tlsSteps (tlsVisits gatewayListeners routes) = before ++ b :: after ∧
        (∀ b' ∈ after, b'.1.words cluster.toCluster b'.2 ≠ b.1.words cluster.toCluster b.2) ∧
        b.1.listener.epName = v.listener.epName ∧
        b.1.listener.passthrough = v.listener.passthrough ∧
        (∀ t, IsServerName t → CoveredBy v.hostnames t → CoveredBy b.1.hostnames t) ∧
        StandsFor cluster.toCluster (tlsVisits gatewayListeners routes) b v.route.namespaceOf rule := by
  have hfound : (fun k => (loadTLSRoutes cluster.toCluster gatewayListeners routes
      emptyTCP).services.lookup k) =
      fun k => last k (tlsServices cluster.toCluster (tlsVisits gatewayListeners routes)) :=
    funext fun k => lookup_tcpServices gatewayListeners routes k
  unfold Served
  rw [hfound]
  constructor
  · rintro ⟨name, router, hrouter, hentryPoints, hpassthrough, hleads, hmatches⟩
    rw [lookup_tcpRouters] at hrouter
    obtain ⟨b, hlast, rfl⟩ := Option.map_eq_some_iff.mp hrouter
    have hstands := (leadsTo_iff_standsFor hlast _ rule).mp hleads
    obtain ⟨before, b, after, hsplit, rfl, rfl, hafter⟩ := last_map_iff.mp hlast
    simp only [ne_eq, tls_routerName_inj] at hafter
    refine ⟨before, b, after, hsplit, hafter, singleton_inj.mp hentryPoints, hpassthrough, ?_,
      hstands⟩
    intro t ht hcovered
    exact (hostSNIRule_matches env b.1.hostnames ht).mp (hmatches t ht hcovered)
  · rintro ⟨before, b, after, hsplit, hafter, hentryPoint, hpassthrough, hcovers, hstands⟩
    simp only [ne_eq, ← tls_routerName_inj] at hafter
    have hlast : last (b.1.routerName cluster.toCluster b.2)
        (tlsBuilt cluster.toCluster (tlsVisits gatewayListeners routes)) = some b :=
      last_map_iff.mpr ⟨before, b, after, hsplit, rfl, rfl, hafter⟩
    refine ⟨b.1.routerName cluster.toCluster b.2, b.1.router cluster.toCluster b.2, ?_,
      singleton_inj.mpr hentryPoint, hpassthrough,
      (leadsTo_iff_standsFor hlast _ rule).mpr hstands, ?_⟩
    · rw [lookup_tcpRouters, hlast]
      rfl
    · intro t ht hcovered
      exact (hostSNIRule_matches env b.1.hostnames ht).mpr (hcovers t ht hcovered)

end Served

/-! ## Two listeners on one entry point -/

/-- The patterns of subdomains. -/
def subdomainsEnv : SniEnv where
  engines :=
    { newChecker := fun _ => .error "unsupported address"
      compile := fun pattern => (compileSubdomains pattern).map HttpMuxer.Regexp.matchString }
  wildcard := by
    intro domain hdomain
    have hcompile := congrArg (Except.map HttpMuxer.Regexp.matchString)
      (compileSubdomains_wildcard hdomain)
    exact ⟨_, hcompile, fun _ => isBelow_iff⟩

/-- The hostname `bar.com`. -/
def barHostname : Hostname where
  text := "bar.com"
  pattern := by decide +kernel
  maxLength := by decide +kernel

/-- A listener of the gateway `public` for one hostname. -/
def tlsListener (name : String) (hostname : Hostname) : TLSListener where
  name := name
  port := 8443
  protocol := .tls
  hostname := some hostname
  allowedNamespaces := [namespaceAll]
  allowedRouteKinds := [kindTLSRoute]
  attached := true
  gwName := "public"
  gwNamespace := "infra"
  epName := "websecure"
  tls := some (some .passthrough)

/-- A route of all hostnames of the gateway to a Service. -/
def tlsShopRoute : TLSRoute where
  namespaceOf := "shop"
  name := "shop"
  parentRefs := [⟨none, none, some "infra", "public", none, none⟩]
  hostnames := []
  rules := [⟨[⟨none, none, none, "api", some 80, none⟩]⟩]

/-- The visits of the route for the two listeners. -/
theorem tlsVisits_shop :
    tlsVisits [tlsListener "foo" fooHostname, tlsListener "bar" barHostname] [tlsShopRoute] =
      [⟨tlsListener "foo" fooHostname, tlsShopRoute, [fooHostname]⟩,
        ⟨tlsListener "bar" barHostname, tlsShopRoute, [barHostname]⟩] := by
  decide +kernel

theorem foo_not_covered : IsServerName "foo.com" ∧ CoveredBy [fooHostname] "foo.com" ∧
    ¬CoveredBy [barHostname] "foo.com" := by
  refine ⟨⟨by decide, all_eq_true.mp (by decide)⟩, .inr ⟨fooHostname, by simp, .inl rfl⟩, ?_⟩
  rintro (hnil | ⟨h, hmem, hcovers⟩)
  · cases hnil
  · obtain rfl := mem_singleton.mp hmem
    rcases hcovers with heq | ⟨p, dom, heq, -⟩
    · exact absurd heq (by decide +kernel)
    · have hhead : barHostname.text.toList.head? = some '*' := by
        rw [heq]
        rfl
      exact absurd hhead (by decide +kernel)

/-- The only rule of the route. -/
def tlsShopStep : TLSStep :=
  ⟨0, ⟨[⟨none, none, none, "api", some 80, none⟩]⟩⟩

/-- The router for the second listener takes the place of that for the first. -/
theorem first_listener_not_served :
    let listeners := [tlsListener "foo" fooHostname, tlsListener "bar" barHostname]
    let v : TLSVisit := ⟨tlsListener "foo" fooHostname, tlsShopRoute, [fooHostname]⟩
    v ∈ tlsVisits listeners [tlsShopRoute] ∧
      v.hostnames = (findMatchingHostnames v.listener.hostname v.route.hostnames).1 ∧
      ∀ rule ∈ tlsShopRoute.rules, ¬Served shopCluster subdomainsEnv
        (loadTLSRoutes shopCluster listeners [tlsShopRoute] emptyTCP) v rule := by
  intro listeners v
  let v₂ : TLSVisit := ⟨tlsListener "bar" barHostname, tlsShopRoute, [barHostname]⟩
  refine ⟨?_, by decide +kernel, ?_⟩
  · rw [tlsVisits_shop]
    exact .head _
  · rintro rule - ⟨name, router, hrouter, -, -, -, hmatches⟩
    rw [lookup_tcpRouters] at hrouter
    obtain ⟨⟨v', s'⟩, hlast, rfl⟩ := Option.map_eq_some_iff.mp hrouter
    obtain ⟨pre, _, after, hsplit, hname, rfl, hafter⟩ := last_map_iff.mp hlast
    have hsteps : tlsSteps (tlsVisits listeners [tlsShopRoute]) =
        [(v, tlsShopStep), (v₂, tlsShopStep)] := by
      rw [tlsVisits_shop]
      rfl
    rw [hsteps] at hsplit
    -- both routers have the same name, so the second is left
    have hsame : v.routerName shopCluster tlsShopStep = v₂.routerName shopCluster tlsShopStep := rfl
    have hbar : v'.hostnames = [barHostname] := by
      match pre, hsplit with
      | [], hsplit =>
        obtain ⟨hfirst, hrest⟩ := cons.inj hsplit
        have hsecond := hafter (v₂, tlsShopStep) (hrest ▸ (.head _))
        rw [← hfirst] at hname
        exact absurd (hsame.symm.trans hname) hsecond
      | [_], hsplit =>
        obtain ⟨-, hrest⟩ := cons.inj hsplit
        have hsecond := (cons.inj hrest).1
        exact congrArg (fun b => b.1.hostnames) hsecond.symm
      | _ :: _ :: pre, hsplit =>
        have hlen := congrArg length hsplit
        simp at hlen
    obtain ⟨hfoo, hcovered, hnot⟩ := foo_not_covered
    have hrule := (hostSNIRule_matches subdomainsEnv v'.hostnames hfoo).mp
      (hmatches "foo.com" hfoo hcovered)
    rw [hbar] at hrule
    exact hnot hrule

end Ingress.Gateway
