import Ingress.Gateway.RouteWrites

/-! # What the Routers of a Gateway Reach

    The keys of services and middlewares are made of the namespace and the name of a
    Service, and two backends can have the same one; the last that was loaded then stands
    for both.

    * `Reaches`: the router of a match leads to the backends of its rule.
    * `Kept`: nothing else stands for these backends and their filters.
    * `reaches_iff_kept`: the two are the same. -/

open List Journal Ingress.Provider Option

namespace Ingress.Gateway

variable {cluster : Cluster}

/-! ## Backends by their keys -/

/-- The backends that are loaded, by the name of their service: the namespace of the
    route, and the reference. -/
def loadedRefs (cluster : Cluster) (vs : List Visit) : List (String × (String × HTTPBackendRef)) :=
  vs.flatMap fun v => (v.loading cluster [] v.route.steps).flatMap fun m =>
    if m.2 then
      m.1.rule.backendRefs.filterMap fun ref =>
        (backendService cluster v.route.namespaceOf ref).map fun w => (w.1, (v.route.namespaceOf, ref))
    else []

open Visit

theorem last_services_backend (ns : String) (ref : HTTPBackendRef) (vs : List Visit) :
    last (serviceName cluster ns ref) (vs.flatMap (services cluster)) =
      last (serviceName cluster ns ref) (vs.flatMap fun v =>
        (v.loading cluster [] v.route.steps).flatMap (v.backendServices cluster)) := by
  refine last_flatMap_congr fun v _ => last_flatMap_congr fun m _ => ?_
  -- the services that a match writes for itself have other keys
  have hnone : last (serviceName cluster ns ref) (v.ownServices cluster m) = none := by
    have herr : ∀ x, x ++ "-err-wrr" ≠ serviceName cluster ns ref := fun x h =>
      serviceName_ne_wrr ns ref (x ++ "-err") (by rw [← h, String.append_assoc]; rfl)
    rw [last_eq_none_iff]
    unfold ownServices
    split
    · simpa using (herr _).symm
    · split
      · simpa using serviceName_ne_wrr ns ref _
      · simp
  rw [last_append, hnone, none_or]

variable {vs : List Visit}

/-- The service under a name is that of the backend that is loaded last under it. -/
theorem last_services_iff {ns : String} {ref : HTTPBackendRef} {service : Service} :
    last (serviceName cluster ns ref) (vs.flatMap (services cluster)) = some service ↔
      ∃ b, last (serviceName cluster ns ref) (loadedRefs cluster vs) = some b ∧
        (backendService cluster b.1 b.2).map Prod.snd = some service := by
  have hsame : (loadedRefs cluster vs).map
        (fun w => (w.1, (backendService cluster w.2.1 w.2.2).map Prod.snd)) =
      (vs.flatMap fun v => (v.loading cluster [] v.route.steps).flatMap
        (v.backendServices cluster)).map fun w => (w.1, some w.2) := by
    simp only [loadedRefs, map_flatMap]
    refine flatMap_congr fun v _ => flatMap_congr fun m _ => ?_
    unfold backendServices
    split
    · rw [map_filterMap, map_filterMap]
      refine filterMap_congr fun ref _ => ?_
      cases hsvc : backendService cluster v.route.namespaceOf ref with
      | none => rfl
      | some w => simp [hsvc]
    · rfl
  have hlast := congrArg (last (serviceName cluster ns ref)) hsame
  rw [last_map (fun b : String × HTTPBackendRef => (backendService cluster b.1 b.2).map Prod.snd),
    last_map, ← last_services_backend] at hlast
  constructor
  · intro h
    rw [h] at hlast
    exact map_eq_some_iff.mp hlast
  · rintro ⟨b, hb, hsvc⟩
    rw [hb, map_some, hsvc] at hlast
    obtain ⟨svc', h, heq⟩ := map_eq_some_iff.mp hlast.symm
    cases heq
    exact h

/-! ## Reaching backends -/

/-- The filter that a named middleware stands for: the middleware itself, or, when it is
    not of this provider, its name. -/
def filterOf (m : String × Option Middleware) : Middleware ⊕ String :=
  m.2.elim (.inr m.1) .inl

/-- What the name of a middleware stands for, by the middlewares that can be found. -/
def resolve (found : String → Option Middleware) (name : String) : Middleware ⊕ String :=
  (found name).elim (.inr name) .inl

/-- The names stand for the filters of the backend. -/
def FiltersOf (cluster : Cluster) (namespaceName : String) (ref : HTTPBackendRef)
    (path : Option HTTPPathMatch) (found : String → Option Middleware) (names : List String) : Prop :=
  ∃ ms, namedMiddlewares cluster namespaceName (backendName cluster namespaceName ref)
      (pathMatchOf path) 0 ref.filters = .ok ms ∧
    names.map (resolve found) = ms.map filterOf

/-- An entry of a weighted service leads to a backend of a match: its service has the
    servers and the filters of the backend. -/
def ReachesBackend (cluster : Cluster) (conf : HTTPConfiguration) (v : Visit) (s : Step)
    (ref : HTTPBackendRef) (entry : WRRService) : Prop :=
  ∃ servers st names,
    conf.services.lookup entry.name = some (.loadBalancer servers st names) ∧
    ServersOf cluster (ref.namespaceIn v.route.namespaceOf) ref servers ∧
    FiltersOf cluster (ref.namespaceIn v.route.namespaceOf) ref s.routeMatch.path
      (fun name => conf.middlewares.lookup name) names

/-- A router leads to the backends of a match: its service is a weighted one, with one
    entry for each backend, in order. -/
def Reaches (cluster : Cluster) (conf : HTTPConfiguration) (name : String) (v : Visit) (s : Step) :
    Prop :=
  ∃ router entries, conf.routers.lookup name = some router ∧
    conf.services.lookup router.service = some (.weighted entries) ∧
    List.Forall₂ (ReachesBackend cluster conf v s) s.rule.backendRefs entries

/-- The backend that is loaded last under the name of the service of `ref` has the
    addresses of `ref`, and the filters that are written last under the names of its filters
    are those of `ref`. -/
def KeptBackend (cluster : Cluster) (vs : List Visit) (v : Visit) (s : Step) (ref : HTTPBackendRef) :
    Prop :=
  let namespaceName := ref.namespaceIn v.route.namespaceOf
  ∃ routeNamespace ref' servers st names,
    last (serviceName cluster namespaceName ref) (loadedRefs cluster vs) = some (routeNamespace, ref') ∧
    loadHTTPServers cluster (ref'.namespaceIn routeNamespace) ref' = .ok (servers, st) ∧
    filterNames cluster (ref'.namespaceIn routeNamespace) ref' = .ok names ∧
    ServersOf cluster namespaceName ref servers ∧
    FiltersOf cluster namespaceName ref s.routeMatch.path
      (fun name => last name (filterWrites cluster vs)) names

/-- The filters of the rule can be loaded, and nothing else stands for its backends. -/
structure Kept (cluster : Cluster) (vs : List Visit) (v : Visit) (s : Step) : Prop where
  filters : (v.filters cluster s).isOk = true
  backends : ∀ ref ∈ s.rule.backendRefs, KeptBackend cluster vs v s ref

theorem mem_loadedRefs {k : String} {b : String × HTTPBackendRef}
    (h : (k, b) ∈ loadedRefs cluster vs) : ∃ w, backendService cluster b.1 b.2 = some w := by
  obtain ⟨v, _, h⟩ := mem_flatMap.mp h
  obtain ⟨m, _, h⟩ := mem_flatMap.mp h
  split at h
  · obtain ⟨ref, _, h⟩ := mem_filterMap.mp h
    obtain ⟨w, hw, heq⟩ := map_eq_some_iff.mp h
    obtain ⟨_, rfl⟩ := Prod.mk.inj heq
    exact ⟨w, hw⟩
  · cases h

/-- A rule whose backends are Kubernetes Services is not for a service of the proxy. -/
theorem internalService_eq_none {rule : HTTPRouteRule} (h : ∀ ref ∈ rule.backendRefs, ref.IsService) :
    rule.internalService = none := by
  unfold HTTPRouteRule.internalService
  split
  next ref hrefs =>
    have hkind := (h ref (hrefs ▸ mem_singleton_self ref)).kind
    have hint : isInternalService ref ≠ true := by
      intro hint
      simp only [isInternalService, Bool.and_eq_true, decide_eq_true_eq] at hint
      rw [HTTPBackendRef.kindOf, hint.1.2] at hkind
      exact absurd hkind (by decide)
    rw [if_neg hint]
  next => rfl

/-- No service is written under the name in the service for filters that cannot be
    loaded. -/
theorem invalid_not_written (vs : List Visit) :
    last "invalid-httproute-filter" (vs.flatMap (services cluster)) = none := by
  rw [last_eq_none_iff]
  intro hmem
  obtain ⟨⟨k, svc⟩, hw, hk⟩ := mem_map.mp hmem
  obtain ⟨v, _, hw⟩ := mem_flatMap.mp hw
  have hlist : k.toList = "invalid-httproute-filter".toList := congrArg String.toList hk
  obtain ⟨ns, ref, hkey⟩ | ⟨s, _, rfl, _⟩ | ⟨s, _, rfl, _⟩ := mem_services hw
  · obtain ⟨c, hdigit, hlast⟩ := serviceName_last ns ref
    rw [← hkey, hlist] at hlast
    have hc : 'r' = c := some.inj hlast
    exact absurd hdigit (by rw [← hc]; decide)
  all_goals
    have hend := congrArg (fun l => l.reverse.take 4) hlist
    simp at hend

section Reach

variable {gatewayListeners : List GatewayListener} {routes : List HTTPRoute} {name : String}
  {v : Visit} {s : Step}

/-- The router of a match whose filters cannot be loaded leads to no backend. -/
theorem not_reaches_of_error
    (hlast : last name (built cluster (visits gatewayListeners routes)) = some (v, s))
    (hfilt : (v.filters cluster s).isOk = false) :
    ¬ Reaches cluster (loadHTTPRoutes cluster gatewayListeners routes Writes.none.configuration)
      name v s := by
  rintro ⟨router, entries, hrouter, hsvc, hentries⟩
  rw [lookup_routers, hlast] at hrouter
  cases hrouter
  have hkey : (v.router cluster s).service = v.routerName cluster s ++ "-err-wrr" := by
    unfold router
    cases hf : v.filters cluster s with
    | error err => rfl
    | ok filters => simp [hf, Except.isOk, Except.toBool] at hfilt
  rw [hkey, lookup_services] at hsvc
  obtain ⟨v', _, hw⟩ := mem_flatMap.mp (mem_of_last hsvc)
  obtain ⟨_, ref, hk⟩ | ⟨s', _, hk, _⟩ | ⟨s', _, _, hsvc⟩ := mem_services hw
  · exact serviceName_ne_wrr _ ref (v.routerName cluster s ++ "-err")
      (by rw [← hk, String.append_assoc]; rfl)
  · exact wrr_ne_err v' s' _ hk.symm
  · -- the only entry is that of the service for such filters
    obtain rfl := Service.weighted.inj hsvc
    obtain ⟨ref, _, hfirst, _⟩ := forall₂_cons_right_iff.mp hentries
    obtain ⟨servers, st, names, hfound, _⟩ := hfirst
    rw [lookup_services, invalid_not_written] at hfound
    cases hfound

theorem reachesBackend_iff {ref : HTTPBackendRef} {entry : WRRService}
    (hentry : entry.name = serviceName cluster (ref.namespaceIn v.route.namespaceOf) ref) :
    ReachesBackend cluster (loadHTTPRoutes cluster gatewayListeners routes Writes.none.configuration)
      v s ref entry ↔ KeptBackend cluster (visits gatewayListeners routes) v s ref := by
  have hfound : (fun name => (loadHTTPRoutes cluster gatewayListeners routes
        Writes.none.configuration).middlewares.lookup name) =
      fun name => last name (filterWrites cluster (visits gatewayListeners routes)) :=
    funext fun name => lookup_middlewares gatewayListeners routes name
  unfold ReachesBackend KeptBackend
  simp only [hentry, lookup_services, hfound, last_services_iff]
  constructor
  · rintro ⟨servers, st, names, ⟨⟨ns, ref'⟩, hlast, hsvc⟩, hservers, hfilt⟩
    obtain ⟨w, hw, hsnd⟩ := map_eq_some_iff.mp hsvc
    obtain ⟨servers', st', names', hload, hnames, hw'⟩ := backendService_eq hw
    rw [hsnd] at hw'
    cases hw'
    exact ⟨ns, ref', servers, st', names, hlast, hload, hnames, hservers, hfilt⟩
  · rintro ⟨ns, ref', servers, st, names, hlast, hload, hnames, hservers, hfilt⟩
    obtain ⟨w, hw⟩ := mem_loadedRefs (mem_of_last hlast)
    obtain ⟨servers', st', names', hload', hnames', hw'⟩ := backendService_eq hw
    rw [hload] at hload'
    rw [hnames] at hnames'
    cases hload'
    cases hnames'
    refine ⟨servers, if st.isSome then w.1 else "", names, ⟨(ns, ref'), hlast, ?_⟩, hservers, hfilt⟩
    rw [hw, map_some, hw']

theorem routerName_of_built (hlast : last name (built cluster vs) = some (v, s)) :
    v.routerName cluster s = name := by
  obtain ⟨v', _, hmem⟩ := mem_flatMap.mp (mem_of_last hlast)
  obtain ⟨s', _, heq⟩ := mem_map.mp hmem
  simp only [Prod.mk.injEq] at heq
  obtain ⟨hname, rfl, rfl⟩ := heq
  exact hname

/-- **A router reaches the backends of its rule** exactly when the filters of the rule can
    be loaded and nothing else stands for its backends and their filters. -/
theorem reaches_iff_kept
    (hlast : last name (built cluster (visits gatewayListeners routes)) = some (v, s))
    (hrefs : ∀ ref ∈ s.rule.backendRefs, ref.IsService ∧
      (loadService cluster v.route.namespaceOf ref s.routeMatch.path).condition = none) :
    Reaches cluster (loadHTTPRoutes cluster gatewayListeners routes Writes.none.configuration)
      name v s ↔ Kept cluster (visits gatewayListeners routes) v s := by
  cases hfilt : (v.filters cluster s).isOk with
  | false =>
    have hnot := not_reaches_of_error hlast hfilt
    refine ⟨fun h => absurd h hnot, fun h => ?_⟩
    rw [h.filters] at hfilt
    cases hfilt
  | true =>
    have hint := internalService_eq_none fun ref href => (hrefs ref href).1
    have hbalances : v.balances cluster s = true := by rw [balances, hfilt, hint]; rfl
    have hkey : (v.router cluster s).service = name ++ "-wrr" := by
      unfold router
      rw [← routerName_of_built hlast, hint]
      cases hf : v.filters cluster s with
      | error err => simp [hf, Except.isOk, Except.toBool] at hfilt
      | ok filters => rfl
    obtain ⟨path, hwrr⟩ := lookup_wrr hlast hbalances
    -- the entries have the names of the services of the backends
    have hentry : ∀ ref ∈ s.rule.backendRefs,
        (loadService cluster v.route.namespaceOf ref path).name =
          serviceName cluster (ref.namespaceIn v.route.namespaceOf) ref := by
      intro ref href
      obtain ⟨svc, hsvc⟩ := exists_backendService (hrefs ref href).1 (hrefs ref href).2
      exact loadService_name hsvc path
    have hlook : (loadHTTPRoutes cluster gatewayListeners routes
        Writes.none.configuration).routers.lookup name = some (v.router cluster s) := by
      rw [lookup_routers, hlast]
      rfl
    constructor
    · rintro ⟨router, entries, hrouter, hsvc, hentries⟩
      rw [hlook] at hrouter
      cases hrouter
      rw [hkey, lookup_services, hwrr] at hsvc
      obtain rfl := Service.weighted.inj (some.inj hsvc)
      rw [forall₂_map_right_iff, forall₂_same] at hentries
      exact ⟨hfilt, fun ref href => (reachesBackend_iff (hentry ref href)).mp (hentries ref href)⟩
    · intro hkept
      refine ⟨v.router cluster s, _, hlook, by rw [hkey, lookup_services, hwrr]; rfl, ?_⟩
      rw [forall₂_map_right_iff, forall₂_same]
      exact fun ref href => (reachesBackend_iff (hentry ref href)).mpr (hkept.backends ref href)

end Reach

/-- A cluster in which every Service has the port 80 and one address, which depends on its
    namespace. -/
def shopCluster : Cluster where
  unicode := asciiWords
  hash := fun _ => "00000000000000000000"
  nativeLBByDefault := false
  getService := fun _ _ => .ok
    { externalName := false, ports := [⟨"web", 80, "TCP", none⟩], nativeLB := .ok none, clusterIP := "None" }
  endpointSlices := fun namespaceName _ => .ok
    [{ ports := [("web", 80)]
       endpoints := [⟨some true, [if namespaceName = "shop" then "10.0.0.2" else "10.0.0.1"]⟩] }]
  tlsPolicies := fun _ _ => .ok []
  configMap := fun _ _ => .ok none
  referenceGrants := fun _ => .ok []
  filterFuncs := fun _ _ => none
  backendFuncs := fun _ _ => none
  hash_length := fun _ => rfl
  hash_digits := fun _ => by decide

/-- A reference to the port 80 of a Service. -/
def serviceRef (name : String) : HTTPBackendRef where
  group := none
  kind := none
  namespaceOf := none
  name := name
  port := some 80
  weight := none
  filters := []

/-- The match of all requests. -/
def anyRequest : HTTPRouteMatch where
  path := none
  headers := []
  queryParams := []
  method := none

/-- A route of all requests to a Service. -/
def shopRoute (namespaceName name service : String) : HTTPRoute where
  namespaceOf := namespaceName
  name := name
  parentRefs := [sectionRef "public" "web"]
  hostnames := []
  rules := [⟨[anyRequest], [], [serviceRef service]⟩]

/-- The visit of such a route, for the listener `web`. -/
def shopVisit (namespaceName name service : String) : Visit where
  listener := listenerOf "public" "web" 80
  route := shopRoute namespaceName name service
  hostnames := []

/-- The only match of such a route. -/
def shopStep (service : String) : Step where
  ri := 0
  rule := ⟨[anyRequest], [], [serviceRef service]⟩
  routeMatch := anyRequest

theorem shop_reaches :
    Reaches shopCluster
      (loadHTTPRoutes shopCluster [listenerOf "public" "web" 80] [shopRoute "shop-eu" "shop" "api"]
        Writes.none.configuration)
      "httproute-shop-eu-shop-gw-infra-public-ep-web-0-00000000000000000000"
      (shopVisit "shop-eu" "shop" "api") (shopStep "api") := by
  refine (reaches_iff_kept (by decide +kernel) ?_).mpr ⟨by decide +kernel, ?_⟩
  · intro ref href
    obtain rfl := mem_singleton.mp href
    exact ⟨by decide +kernel, by decide +kernel⟩
  · intro ref href
    obtain rfl := mem_singleton.mp href
    exact ⟨"shop-eu", serviceRef "api", ["http://10.0.0.1:80"], none, [], by decide +kernel, rfl, rfl,
      ⟨[⟨"10.0.0.1", 80⟩], ⟨"web", 80, "TCP", none⟩, "http", rfl, rfl⟩, [], rfl, rfl⟩

/-- A route of another namespace, to a Service of another name, takes the traffic. -/
theorem shop_eu_lost :
    let routes := [shopRoute "shop-eu" "shop" "api", shopRoute "shop" "shop" "eu-api"]
    let name := "httproute-shop-eu-shop-gw-infra-public-ep-web-0-00000000000000000000"
    last name (built shopCluster (visits [listenerOf "public" "web" 80] routes)) =
      some (shopVisit "shop-eu" "shop" "api", shopStep "api") ∧
    (∀ ref ∈ (shopStep "api").rule.backendRefs, ref.IsService ∧
      (loadService shopCluster "shop-eu" ref none).condition = none) ∧
    ¬ Reaches shopCluster
      (loadHTTPRoutes shopCluster [listenerOf "public" "web" 80] routes Writes.none.configuration)
      name (shopVisit "shop-eu" "shop" "api") (shopStep "api") := by
  refine ⟨by decide +kernel, ?_, ?_⟩
  · intro ref href
    obtain rfl := mem_singleton.mp href
    exact ⟨by decide +kernel, by decide +kernel⟩
  · rintro ⟨router, entries, hrouter, hsvc, hentries⟩
    rw [show Finmap.lookup _ _ = some ((shopVisit "shop-eu" "shop" "api").router shopCluster
      (shopStep "api")) by decide +kernel] at hrouter
    cases hrouter
    rw [show Finmap.lookup _ _ = some (Service.weighted [⟨"shop-eu-api-http-80", none, 1⟩]) by
      decide +kernel] at hsvc
    cases hsvc
    obtain ⟨servers, st, names, hfound, ⟨addrs, svcPort, protocol, hget, hservers⟩, _⟩ :=
      (forall₂_cons.mp hentries).1
    rw [show Finmap.lookup _ _ = some (Service.loadBalancer ["http://10.0.0.2:80"] "" []) by
      decide +kernel] at hfound
    cases hfound
    have haddresses : addrs = [⟨"10.0.0.1", 80⟩] := by
      cases hget
      rfl
    -- whatever the protocol, the addresses differ
    rw [haddresses, map_singleton, singleton_inj, serverURL,
      show joinHostPort "10.0.0.1" (toString 80) = "10.0.0.1:80" by decide +kernel] at hservers
    have hend := congrArg (fun url => url.toList.reverse.take 4) hservers
    simp at hend

end Ingress.Gateway
