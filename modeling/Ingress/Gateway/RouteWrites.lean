import Ingress.Gateway.HttpRoute

/-! # What HTTP Routes Write

    All routes write into the same maps.  This module says what each match of a rule
    writes, and which write is the last at a key.

    * `loadService_cases`: what loading a backend writes.
    * `loadHTTPRoute_writes`: what a route writes, match by match.
    * `lookup_services`, `lookup_middlewares`, `lookup_routers`: what the configuration
      holds.
    * `lookup_wrr`: the weighted service of a router is its own. -/

open List Journal Ingress.Provider

namespace Ingress.Gateway

variable {cluster : Cluster}

/-! ## Keys -/

/-- The key of a rule ends in its number. -/
theorem routeKey_eq (cluster : Cluster) (v : Visit) :
    ∃ front : String, ∀ ri, v.routeKey cluster ri = front ++ toString ri :=
  normalize_append_nat cluster.unicode _

variable {v : Visit}

open Visit

variable {s : Step} {s' : Step}

/-- The names of the routers of one visit tell the rules apart. -/
theorem routerName_ri (h : v.routerName cluster s = v.routerName cluster s') : s.ri = s'.ri := by
  obtain ⟨front, hfront⟩ := routeKey_eq cluster v
  have hlen : ∀ rule, (cluster.hash rule).toList.length = 20 := fun rule => by
    rw [String.length_toList, cluster.hash_length]
  have heq := congrArg String.toList h
  simp only [routerName, makeRouterName, hfront, String.toList_append] at heq
  have hfronts := (append_inj' heq (by rw [hlen, hlen])).1
  have hnumbers := append_cancel_left (append_cancel_right hfronts)
  have hvals := congrArg (fun digits => Nat.ofDigitChars 10 digits 0) hnumbers
  simpa [Nat.toString_eq_ofList_toDigits] using hvals

/-- The name of a service ends in a digit. -/
theorem serviceName_last (ns : String) (ref : HTTPBackendRef) :
    ∃ c, c.isDigit = true ∧
      (serviceName cluster ns ref).toList.getLast? = some c :=
  normalize_nat_last cluster.unicode _ _

theorem serviceName_ne_wrr (ns : String) (ref : HTTPBackendRef) (x : String) :
    serviceName cluster ns ref ≠ x ++ "-wrr" := by
  intro h
  obtain ⟨c, hdigit, hlast⟩ := serviceName_last ns ref
  rw [h, String.toList_append] at hlast
  have hr : (x.toList ++ "-wrr".toList).getLast? = some 'r' := by simp
  rw [hr] at hlast
  cases hlast
  exact absurd hdigit (by decide)

/-- The name of a router does not end in `-err`. -/
theorem wrr_ne_err (v : Visit) (s : Step) (x : String) :
    v.routerName cluster s ++ "-wrr" ≠ x ++ "-err-wrr" := by
  intro h
  have hlist : (v.routeKey cluster s.ri ++ "-").toList ++
      (cluster.hash (buildMatchRule v.hostnames s.routeMatch).1).toList =
        x.toList ++ "-err".toList := by
    have heq := congrArg String.toList h
    have hsplit : (x ++ "-err-wrr").toList = (x.toList ++ "-err".toList) ++ "-wrr".toList := by simp
    rw [hsplit, String.toList_append] at heq
    have hname := append_cancel_right heq
    rw [routerName, makeRouterName, String.toList_append] at hname
    exact hname
  -- the last four characters are those of a hash
  generalize hhash : (cluster.hash (buildMatchRule v.hostnames s.routeMatch).1).toList = digits at hlist
  have hlength : digits.length = 20 := by
    rw [← hhash, String.length_toList, cluster.hash_length]
  have hdash : '-' ∉ digits := hhash ▸ cluster.hash_digits _
  obtain hcase | hcase := append_eq_append_iff.mp hlist
  · obtain ⟨between, _, heq⟩ := hcase
    apply hdash
    rw [heq]
    simp
  · obtain ⟨between, _, heq⟩ := hcase
    have hlen := congrArg length heq
    simp [hlength] at hlen

/-! ## Services of backends -/

/-- The names of filters do not depend on the path of the match. -/
theorem namedMiddleware_name (ns name : String) (pm pm' : HTTPPathMatch) (i : ℕ)
    (filter : HTTPRouteFilter) :
    (namedMiddleware cluster ns name pm i filter).map Prod.fst =
      (namedMiddleware cluster ns name pm' i filter).map Prod.fst := by
  cases filter with
  | urlRewrite filter =>
    simp only [namedMiddleware, createURLRewrite]
    split <;> rfl
  | _ => rfl

theorem map_names_cons (first : Except String (String × Option Middleware))
    (rest : Except String (List (String × Option Middleware))) :
    (do let m ← first; let ms ← rest; pure (m :: ms) : Except String _).map (map Prod.fst) =
      (do let n ← first.map Prod.fst; let ns ← rest.map (map Prod.fst); pure (n :: ns)) := by
  rcases first with err | m
  · rfl
  · rcases rest with err | ms <;> rfl

theorem namedMiddlewares_names (ns name : String) (pm pm' : HTTPPathMatch) (i : ℕ)
    (filters : List HTTPRouteFilter) :
    (namedMiddlewares cluster ns name pm i filters).map (map Prod.fst) =
      (namedMiddlewares cluster ns name pm' i filters).map (map Prod.fst) := by
  induction filters generalizing i with
  | nil => rfl
  | cons filter filters ih =>
    simp only [namedMiddlewares, map_names_cons]
    rw [namedMiddleware_name ns name pm pm' i filter, ih (i + 1)]

/-- The names of the filters of a backend. -/
def filterNames (cluster : Cluster) (namespaceName : String) (ref : HTTPBackendRef) :
    Except String (List String) :=
  (namedMiddlewares cluster namespaceName (backendName cluster namespaceName ref) (pathMatchOf none) 0
    ref.filters).map (List.map Prod.fst)

/-- A reference to a Kubernetes Service. -/
structure HTTPBackendRef.IsService (ref : HTTPBackendRef) : Prop where
  group : ref.groupOf = groupCore
  kind : ref.kindOf = kindService

instance (ref : HTTPBackendRef) : Decidable ref.IsService :=
  decidable_of_iff (ref.groupOf = groupCore ∧ ref.kindOf = kindService)
    ⟨fun h => ⟨h.1, h.2⟩, fun h => ⟨h.group, h.kind⟩⟩

/-- The service that a reference to a Kubernetes Service stands for, when it can be
    loaded, with its name. -/
def backendService (cluster : Cluster) (routeNamespace : String) (ref : HTTPBackendRef) :
    Option (String × Service) :=
  let namespaceName := ref.namespaceIn routeNamespace
  match isReferenceGranted cluster kindHTTPRoute routeNamespace ref.groupOf ref.kindOf ref.name
      namespaceName, filterNames cluster namespaceName ref, loadHTTPServers cluster namespaceName ref with
  | .ok (), .ok names, .ok (servers, st) =>
    let name := serviceName cluster namespaceName ref
    if ref.IsService ∧ ref.port.getD 0 ≠ 0 then
      some (name, .loadBalancer servers (if st.isSome then name else "") names)
    else none
  | _, _, _ => none

/-- The filters of a backend can be loaded for one path exactly when they can be for
    another, and have the same names. -/
theorem loadMiddlewares_names {ns : String} {ref : HTTPBackendRef} (pm : Option HTTPPathMatch) :
    (loadMiddlewares cluster ns (backendName cluster ns ref) ref.filters
      pm).map Prod.fst = filterNames cluster ns ref := by
  rw [filterNames, namedMiddlewares_names _ _ _ (pathMatchOf pm), loadMiddlewares]
  cases namedMiddlewares cluster ns (backendName cluster ns ref)
    (pathMatchOf pm) 0 ref.filters <;> rfl

variable {name : String}

theorem services_of_loadMiddlewares {ns : String}
    {filters : List HTTPRouteFilter} {pm : Option HTTPPathMatch} {names : List String}
    {writes : Writes} (h : loadMiddlewares cluster ns name filters pm = .ok (names, writes)) :
    writes.services = [] ∧ writes.routers = [] := by
  unfold loadMiddlewares at h
  cases hms : namedMiddlewares cluster ns name (pathMatchOf pm) 0 filters with
  | error err =>
    rw [hms] at h
    cases h
  | ok ms =>
    rw [hms] at h
    cases h
    exact ⟨rfl, rfl⟩

/-- **Loading a backend**: a reference to a Kubernetes Service that can be loaded writes
    its service, under its name; no other reference writes one. -/
theorem loadService_cases (cluster : Cluster) (ns : String) (ref : HTTPBackendRef)
    (pm : Option HTTPPathMatch) : let loaded := loadService cluster ns ref pm
    let name := serviceName cluster (ref.namespaceIn ns) ref
    (∃ service, backendService cluster ns ref = some (name, service) ∧
      loaded.name = name ∧ loaded.condition = none ∧ loaded.writes.services = [(name, service)]) ∨
    (backendService cluster ns ref = none ∧ loaded.writes.services = [] ∧
      (ref.IsService → loaded.condition ≠ none)) := by
  have hnames := @loadMiddlewares_names cluster (ref.namespaceIn ns) ref pm
  dsimp only [loadService, backendService]
  rw [← hnames]
  rcases isReferenceGranted cluster kindHTTPRoute ns ref.groupOf ref.kindOf ref.name
    (ref.namespaceIn ns) with err | granted
  · exact .inr ⟨rfl, rfl, fun _ => nofun⟩
  rcases hfilt : loadMiddlewares cluster (ref.namespaceIn ns)
    (backendName cluster (ref.namespaceIn ns) ref) ref.filters pm with err | ⟨names, writes⟩
  · exact .inr ⟨rfl, rfl, fun _ => nofun⟩
  have hnone := (services_of_loadMiddlewares hfilt).1
  dsimp only [Except.map]
  by_cases hsvc : ref.IsService
  · have hkind : ¬ (ref.groupOf ≠ groupCore ∨ ref.kindOf ≠ kindService) := fun hor =>
      hor.elim (· hsvc.group) (· hsvc.kind)
    rw [if_neg hkind]
    -- the port, then the servers
    by_cases hport : ref.port.getD 0 = 0
    · right
      rcases loadHTTPServers cluster (ref.namespaceIn ns) ref with err | ⟨servers, st⟩ <;>
        simp [hport, hnone]
    · rw [if_neg hport]
      rcases loadHTTPServers cluster (ref.namespaceIn ns) ref with err | ⟨servers, st⟩
      · exact .inr ⟨rfl, hnone, fun _ => nofun⟩
      · left
        simp [hsvc, hport, hnone, serviceWrites]
  · have hkind : ref.groupOf ≠ groupCore ∨ ref.kindOf ≠ kindService := by
      by_contra hnot
      rw [not_or, not_not, not_not] at hnot
      exact hsvc ⟨hnot.1, hnot.2⟩
    rw [if_pos hkind]
    right
    rcases loadHTTPBackendRef cluster (ref.namespaceIn ns) ref with err | name <;>
      rcases loadHTTPServers cluster (ref.namespaceIn ns) ref with err | ⟨servers, st⟩ <;>
      simp [hnone, hsvc]

theorem services_loadService (ns : String) (ref : HTTPBackendRef) (pm : Option HTTPPathMatch) :
    (loadService cluster ns ref pm).writes.services =
      (backendService cluster ns ref).toList := by
  obtain ⟨svc, hsome, _, _, hwrites⟩ | ⟨hnone, hwrites, _⟩ := loadService_cases cluster ns ref pm
  · rw [hwrites, hsome]
    rfl
  · rw [hwrites, hnone]
    rfl

variable {routeNamespace : String}

/-- A reference to a Kubernetes Service that is loaded without error for one path has a
    service, and is loaded without error for every path. -/
theorem exists_backendService {ref : HTTPBackendRef}
    (hsvc : ref.IsService) {pm : Option HTTPPathMatch}
    (h : (loadService cluster routeNamespace ref pm).condition = none) :
    ∃ service, backendService cluster routeNamespace ref =
      some (serviceName cluster (ref.namespaceIn routeNamespace) ref, service) := by
  obtain ⟨service, hsome, _⟩ | ⟨_, _, hcondition⟩ := loadService_cases cluster routeNamespace ref pm
  · exact ⟨service, hsome⟩
  · exact absurd h (hcondition hsvc)

variable {svc : Service}

theorem loadService_name {ref : HTTPBackendRef}
    (h : backendService cluster routeNamespace ref = some (name, svc)) (pm : Option HTTPPathMatch) :
    (loadService cluster routeNamespace ref pm).name =
      serviceName cluster (ref.namespaceIn routeNamespace) ref := by
  obtain ⟨_, _, hname, _⟩ | ⟨hnone, _⟩ := loadService_cases cluster routeNamespace ref pm
  · exact hname
  · rw [hnone] at h
    cases h

theorem backendService_name {ref : HTTPBackendRef}
    (h : backendService cluster routeNamespace ref = some (name, svc)) :
    name = serviceName cluster (ref.namespaceIn routeNamespace) ref := by
  obtain ⟨_, hsome, _⟩ | ⟨hnone, _⟩ := loadService_cases cluster routeNamespace ref none
  · rw [hsome] at h
    have hpair := Option.some.inj h
    rw [Prod.mk.injEq] at hpair
    exact hpair.1.symm
  · rw [hnone] at h
    cases h

theorem backendService_eq {ref : HTTPBackendRef} {w : String × Service}
    (h : backendService cluster routeNamespace ref = some w) :
    ∃ servers st names,
      loadHTTPServers cluster (ref.namespaceIn routeNamespace) ref = .ok (servers, st) ∧
      filterNames cluster (ref.namespaceIn routeNamespace) ref = .ok names ∧
      w.2 = .loadBalancer servers (if st.isSome then w.1 else "") names := by
  dsimp only [backendService] at h
  split at h
  next names servers st _ hnames hservers =>
    split at h
    next =>
      have hw := Option.some.inj h
      refine ⟨servers, st, names, hservers, hnames, ?_⟩
      simp only [← hw]
    next => cases h
  next => cases h

/-- What the filters of a backend write. -/
def loadedFilters (cluster : Cluster) (routeNamespace : String) (ref : HTTPBackendRef)
    (pathMatch : Option HTTPPathMatch) : List (String × Middleware) :=
  let namespaceName := ref.namespaceIn routeNamespace
  match isReferenceGranted cluster kindHTTPRoute routeNamespace ref.groupOf ref.kindOf ref.name
      namespaceName, loadMiddlewares cluster namespaceName (backendName cluster namespaceName ref)
        ref.filters pathMatch with
  | .ok (), .ok (_, writes) => writes.middlewares
  | _, _ => []

theorem loadService_frame (ns : String) (ref : HTTPBackendRef) (pm : Option HTTPPathMatch) :
    (loadService cluster ns ref pm).writes.middlewares =
      loadedFilters cluster ns ref pm ∧
    (loadService cluster ns ref pm).writes.routers = [] := by
  dsimp only [loadService, loadedFilters]
  rcases isReferenceGranted cluster kindHTTPRoute ns ref.groupOf ref.kindOf ref.name
    (ref.namespaceIn ns) with err | granted
  · exact ⟨rfl, rfl⟩
  rcases hfilt : loadMiddlewares cluster (ref.namespaceIn ns)
    (backendName cluster (ref.namespaceIn ns) ref) ref.filters pm with err | ⟨names, writes⟩
  · exact ⟨rfl, rfl⟩
  have hnone := (services_of_loadMiddlewares hfilt).2
  dsimp only
  split
  · rcases loadHTTPBackendRef cluster (ref.namespaceIn ns) ref with err | name <;>
      exact ⟨rfl, hnone⟩
  · split
    · exact ⟨rfl, hnone⟩
    · rcases loadHTTPServers cluster (ref.namespaceIn ns) ref with err | ⟨servers, st⟩
      · exact ⟨rfl, hnone⟩
      · simp [serviceWrites, hnone]

/-! ## What a route writes -/

/-- The backends of a match go into a weighted service: its filters can be loaded, and it
    is not for a service of the proxy itself. -/
def Visit.balances (cluster : Cluster) (v : Visit) (s : Step) : Bool :=
  (v.filters cluster s).isOk && s.rule.internalService.isNone

/-- The matches of a visit, each with whether its backends are loaded: a match with the
    name of an earlier one, whose backends are, finds their weighted service. -/
def Visit.loading (cluster : Cluster) (v : Visit) (seen : List String) : List Step → List (Step × Bool)
  | [] => []
  | s :: steps =>
    let name := v.routerName cluster s
    let loads := v.balances cluster s && !seen.contains name
    (s, loads) :: v.loading cluster (if loads then name :: seen else seen) steps

/-- What a match writes. -/
def Visit.writes (cluster : Cluster) (v : Visit) (m : Step × Bool) : Writes :=
  (v.loadMatch cluster (if m.2 then [] else [v.routerName cluster m.1 ++ "-wrr"]) m.1).2

/-- The services of the backends of a match. -/
def Visit.backendServices (cluster : Cluster) (v : Visit) (m : Step × Bool) :
    List (String × Service) :=
  if m.2 then m.1.rule.backendRefs.filterMap (backendService cluster v.route.namespaceOf) else []

/-- What the filters of a match and of its backends write. -/
def Visit.filterWrites (cluster : Cluster) (v : Visit) (m : Step × Bool) :
    List (String × Middleware) :=
  (((v.filters cluster m.1).toOption.map fun filters => filters.2.middlewares).getD []) ++
    if m.2 then m.1.rule.backendRefs.flatMap fun ref =>
      loadedFilters cluster v.route.namespaceOf ref m.1.routeMatch.path
    else []

/-- The services that a match writes for itself. -/
def Visit.ownServices (cluster : Cluster) (v : Visit) (m : Step × Bool) : List (String × Service) :=
  let name := v.routerName cluster m.1
  match v.filters cluster m.1 with
  | .error _ => [(name ++ "-err-wrr", errWrr)]
  | .ok _ =>
    if m.2 then
      [(name ++ "-wrr", wrrOf cluster v.route.namespaceOf m.1.rule m.1.routeMatch.path)]
    else []

theorem services_foldr (loaded : List Loaded) (w : Writes) :
    (loaded.foldr (fun l writes => l.writes ++ writes) w).services =
      loaded.flatMap (·.writes.services) ++ w.services := by
  induction loaded with
  | nil => rfl
  | cons l loaded ih => simp [ih]

theorem middlewares_foldr (loaded : List Loaded) (w : Writes) :
    (loaded.foldr (fun l writes => l.writes ++ writes) w).middlewares =
      loaded.flatMap (·.writes.middlewares) ++ w.middlewares := by
  induction loaded with
  | nil => rfl
  | cons l loaded ih => simp [ih]

theorem routers_foldr (loaded : List Loaded) (w : Writes) (h : ∀ l ∈ loaded, l.writes.routers = []) :
    (loaded.foldr (fun l writes => l.writes ++ writes) w).routers = w.routers := by
  induction loaded with
  | nil => rfl
  | cons l loaded ih =>
    rw [foldr_cons, routers_append, h l (.head _), nil_append]
    exact ih fun l' hl' => h l' (.tail _ hl')

/-- **What a match writes**: the services of its backends and its own, the filters of
    both, and its router. -/
theorem writes_eq (v : Visit) (m : Step × Bool) (h : m.2 = true → v.balances cluster m.1 = true) :
    (v.writes cluster m).services = v.backendServices cluster m ++ v.ownServices cluster m ∧
    (v.writes cluster m).middlewares = v.filterWrites cluster m ∧
    (v.writes cluster m).routers = [(v.routerName cluster m.1, v.router cluster m.1)] := by
  obtain ⟨s, loads⟩ := m
  dsimp only [writes, loadMatch, backendServices, filterWrites, ownServices] at h ⊢
  cases hfilt : v.filters cluster s with
  | error err =>
    have hloads : loads = false := by
      cases loads with
      | false => rfl
      | true => simpa [balances, hfilt, Except.isOk, Except.toBool] using h rfl
    subst hloads
    exact ⟨rfl, rfl, rfl⟩
  | ok filters =>
    obtain ⟨hsvcs, hrouters⟩ := services_of_loadMiddlewares hfilt
    cases hint : s.rule.internalService with
    | some name =>
      have hloads : loads = false := by
        cases loads with
        | false => rfl
        | true => simpa [balances, hint] using h rfl
      subst hloads
      simp [Writes.none, Except.toOption, hsvcs, hrouters]
    | none =>
      cases loads with
      | false => simp [loadWRRService, Writes.none, Except.toOption, hsvcs, hrouters]
      | true =>
        simp only [loadWRRService, not_mem_nil, if_true, if_false, services_append,
          middlewares_append, routers_append, services_foldr, middlewares_foldr, flatMap_map,
          services_loadService, (loadService_frame ..).1, ← filterMap_eq_flatMap_toList,
          hsvcs, hrouters]
        rw [routers_foldr]
        · simp [Writes.none, Except.toOption]
        · intro l hl
          obtain ⟨ref, _, rfl⟩ := mem_map.mp hl
          exact (loadService_frame ..).2

theorem mem_loading {seen : List String} {steps : List Step} {m : Step × Bool}
    (h : m ∈ v.loading cluster seen steps) :
    m.1 ∈ steps ∧ (m.2 = true → v.balances cluster m.1 = true) := by
  induction steps generalizing seen with
  | nil => cases h
  | cons s steps ih =>
    rcases mem_cons.mp h with rfl | h
    · refine ⟨.head _, fun hloads => ?_⟩
      exact (Bool.and_eq_true_iff.mp hloads).1
    · obtain ⟨hmem, hloads⟩ := ih h
      exact ⟨.tail _ hmem, hloads⟩

/-- A weighted service is written under the name of the match that loads its backends,
    and under no other. -/
theorem wrr_mem_writes {m : Step × Bool} (h : m.2 = true → v.balances cluster m.1 = true)
    (s : Step) : v.routerName cluster s ++ "-wrr" ∈ (v.writes cluster m).services.map Prod.fst ↔
      m.2 = true ∧ v.routerName cluster s = v.routerName cluster m.1 := by
  have hbackends : v.routerName cluster s ++ "-wrr" ∉ (v.backendServices cluster m).map Prod.fst := by
    intro hmem
    obtain ⟨⟨name, svc⟩, hw, hkey⟩ := mem_map.mp hmem
    unfold backendServices at hw
    split at hw
    · obtain ⟨ref, _, hsome⟩ := mem_filterMap.mp hw
      exact serviceName_ne_wrr _ ref _ ((backendService_name hsome).symm.trans hkey)
    · cases hw
  rw [(writes_eq v m h).1, map_append, mem_append, or_iff_right hbackends]
  unfold ownServices
  cases hfilt : v.filters cluster m.1 with
  | error err =>
    have hloads : m.2 ≠ true := fun hloads => by
      simpa [balances, hfilt, Except.isOk, Except.toBool] using h hloads
    simp [hloads, wrr_ne_err]
  | ok filters =>
    by_cases hloads : m.2 = true
    · simp [hloads, String.append_left_inj]
    · simp [hloads]

/-- The backends of a match are loaded when its weighted service is not there. -/
theorem loadMatch_known {known : List String} {loads : Bool}
    (h : v.balances cluster s = true → (v.routerName cluster s ++ "-wrr" ∈ known ↔ loads = false)) :
    (v.loadMatch cluster known s).2 = v.writes cluster (s, loads) := by
  dsimp only [writes, loadMatch]
  cases hfilt : v.filters cluster s with
  | error err => rfl
  | ok filters =>
    cases hint : s.rule.internalService with
    | some name => rfl
    | none =>
      have hbalances : v.balances cluster s = true := by
        simp [balances, hfilt, hint, Except.isOk, Except.toBool]
      cases loads <;> simp_all [loadWRRService]

/-- **What a route writes**, match by match. -/
theorem loadHTTPRoute_writes (v : Visit) : (loadHTTPRoute cluster v).2 =
    (v.loading cluster [] v.route.steps).foldl (fun conf m => conf ++ v.writes cluster m) .none := by
  -- the weighted services that are there are those of the matches seen
  suffices hfold : ∀ (steps : List Step) (seen : List String) (cond : Option Condition)
      (conf : Writes),
      (∀ s, v.routerName cluster s ++ "-wrr" ∈ conf.services.map Prod.fst ↔
        v.routerName cluster s ∈ seen) →
      (steps.foldl (fun acc s =>
        ((v.loadMatch cluster (acc.2.services.map Prod.fst) s).1.or acc.1,
          acc.2 ++ (v.loadMatch cluster (acc.2.services.map Prod.fst) s).2)) (cond, conf)).2 =
      (v.loading cluster seen steps).foldl (fun conf m => conf ++ v.writes cluster m) conf from
    hfold v.route.steps [] none .none fun s => by simp [Writes.none]
  intro steps
  induction steps with
  | nil =>
    intro seen cond conf _
    rfl
  | cons s steps ih =>
    intro seen cond conf hseen
    have hmatch : (v.loadMatch cluster (conf.services.map Prod.fst) s).2 = v.writes cluster
        (s, v.balances cluster s && !seen.contains (v.routerName cluster s)) := by
      refine loadMatch_known fun hbalances => ?_
      rw [hseen, hbalances]
      simp
    have hnext : ∀ s', v.routerName cluster s' ++ "-wrr" ∈
        (conf ++ (v.loadMatch cluster (conf.services.map Prod.fst) s).2).services.map Prod.fst ↔
        v.routerName cluster s' ∈
          if v.balances cluster s && !seen.contains (v.routerName cluster s) then
            v.routerName cluster s :: seen
          else seen := by
      intro s'
      rw [hmatch, services_append, map_append, mem_append, hseen,
        wrr_mem_writes fun hloads => (Bool.and_eq_true_iff.mp hloads).1]
      split
      next hloads =>
        rw [mem_cons]
        simp only [hloads, true_and]
        exact or_comm
      next hloads => simp only [hloads, false_and, or_false, Bool.false_eq_true]
    rw [foldl_cons, loading, foldl_cons, ← hmatch]
    exact ih _ _ _ hnext

theorem foldl_writes {α : Type u} (f : α → Writes) (l : List α) (w : Writes) :
    let after := l.foldl (fun w a => w ++ f a) w
    after.services = w.services ++ l.flatMap (fun a => (f a).services) ∧
    after.middlewares = w.middlewares ++ l.flatMap (fun a => (f a).middlewares) ∧
    after.routers = w.routers ++ l.flatMap fun a => (f a).routers := by
  induction l generalizing w with
  | nil => simp
  | cons a l ih =>
    obtain ⟨hsvcs, hmws, hrouters⟩ := ih (w ++ f a)
    refine ⟨?_, ?_, ?_⟩
    · simpa [append_assoc] using hsvcs
    · simpa [append_assoc] using hmws
    · simpa [append_assoc] using hrouters

/-- The services that a visit writes. -/
def Visit.services (cluster : Cluster) (v : Visit) : List (String × Service) :=
  (v.loading cluster [] v.route.steps).flatMap fun m =>
    v.backendServices cluster m ++ v.ownServices cluster m

theorem map_fst_loading (v : Visit) (seen : List String) (steps : List Step) :
    (v.loading cluster seen steps).map Prod.fst = steps := by
  induction steps generalizing seen with
  | nil => rfl
  | cons s steps ih => rw [loading, map_cons, ih]

theorem loadHTTPRoute_eq (v : Visit) :
    (loadHTTPRoute cluster v).2.services = v.services cluster ∧
    (loadHTTPRoute cluster v).2.middlewares =
      (v.loading cluster [] v.route.steps).flatMap (v.filterWrites cluster) ∧
    (loadHTTPRoute cluster v).2.routers =
      v.route.steps.map fun s => (v.routerName cluster s, v.router cluster s) := by
  obtain ⟨hsvcs, hmws, hrouters⟩ :=
    foldl_writes (v.writes cluster) (v.loading cluster [] v.route.steps) .none
  have hmatch := fun m (hm : m ∈ v.loading cluster [] v.route.steps) =>
    writes_eq v m (mem_loading hm).2
  rw [loadHTTPRoute_writes, hsvcs, hmws, hrouters]
  refine ⟨?_, ?_, ?_⟩
  · exact flatMap_congr fun m hm => (hmatch m hm).1
  · exact flatMap_congr fun m hm => (hmatch m hm).2.1
  · have hsteps := @map_fst_loading cluster v [] v.route.steps
    calc Writes.none.routers ++ (v.loading cluster [] v.route.steps).flatMap
          (fun m => (v.writes cluster m).routers)
        = (v.loading cluster [] v.route.steps).flatMap
          (fun m => [(v.routerName cluster m.1, v.router cluster m.1)]) :=
          flatMap_congr fun m hm => (hmatch m hm).2.2
      _ = ((v.loading cluster [] v.route.steps).map Prod.fst).map
          (fun s => (v.routerName cluster s, v.router cluster s)) := by
          rw [map_map]
          exact (map_eq_flatMap).symm
      _ = v.route.steps.map fun s => (v.routerName cluster s, v.router cluster s) := by rw [hsteps]

/-! ## What the configuration holds -/

/-- All visits, in the order of `loadHTTPRoutes`. -/
def visits (gatewayListeners : List GatewayListener) (routes : List HTTPRoute) : List Visit :=
  routes.flatMap (merges gatewayListeners)

/-- The names of the routers, each with the match it is built for. -/
def built (cluster : Cluster) (vs : List Visit) : List (String × (Visit × Step)) :=
  vs.flatMap fun v => v.route.steps.map fun s => (v.routerName cluster s, (v, s))

def filterWrites (cluster : Cluster) (vs : List Visit) : List (String × Middleware) :=
  vs.flatMap fun v => (v.loading cluster [] v.route.steps).flatMap (v.filterWrites cluster)

section Lookup

variable (gatewayListeners : List GatewayListener) (routes : List HTTPRoute) (k : String)

theorem lookup_services :
    (loadHTTPRoutes cluster gatewayListeners routes Writes.none.configuration).services.lookup k =
      last k ((visits gatewayListeners routes).flatMap (services cluster)) := by
  rw [loadHTTPRoutes, lookup_copy HTTPConfiguration.services (fun _ _ => rfl) rfl,
    flatMap_congr fun v _ => (loadHTTPRoute_eq v).1]
  rfl

theorem lookup_middlewares :
    (loadHTTPRoutes cluster gatewayListeners routes Writes.none.configuration).middlewares.lookup k =
      last k (filterWrites cluster (visits gatewayListeners routes)) := by
  rw [loadHTTPRoutes, lookup_copy HTTPConfiguration.middlewares (fun _ _ => rfl) rfl,
    flatMap_congr fun v _ => (loadHTTPRoute_eq v).2.1]
  rfl

/-- **Every router** is that of the match built last under its name. -/
theorem lookup_routers :
    (loadHTTPRoutes cluster gatewayListeners routes Writes.none.configuration).routers.lookup k =
      (last k (built cluster (visits gatewayListeners routes))).map fun b => b.1.router cluster b.2 := by
  rw [loadHTTPRoutes, lookup_copy HTTPConfiguration.routers (fun _ _ => rfl) rfl,
    flatMap_congr fun v _ => (loadHTTPRoute_eq v).2.2, ← last_map, built, map_flatMap]
  simp only [map_map, Function.comp_def, visits]

end Lookup

/-! ## Weighted services -/

theorem rule_of_mem_steps {route : HTTPRoute} (h : s ∈ route.steps) :
    route.rules[s.ri]? = some s.rule := by
  obtain ⟨⟨rule, ri⟩, hrule, hstep⟩ := mem_flatMap.mp h
  obtain ⟨routeMatch, _, rfl⟩ := mem_map.mp hstep
  exact mem_zipIdx_iff_getElem?.mp hrule

/-- Matches of one visit with the same name are of the same rule. -/
theorem rule_eq_of_routerName (hs : s ∈ v.route.steps)
    (hs' : s' ∈ v.route.steps) (h : v.routerName cluster s = v.routerName cluster s') :
    s.rule = s'.rule := by
  have hrule := rule_of_mem_steps hs
  rw [routerName_ri h, rule_of_mem_steps hs'] at hrule
  exact (Option.some.inj hrule).symm

/-- The keys of services are those of backends, of weighted services and of the services
    for filters that cannot be loaded. -/
theorem mem_services {k : String} (h : (k, svc) ∈ v.services cluster) :
    (∃ namespaceName ref, k = serviceName cluster namespaceName ref) ∨
    (∃ s ∈ v.route.steps, k = v.routerName cluster s ++ "-wrr" ∧
      svc = wrrOf cluster v.route.namespaceOf s.rule s.routeMatch.path) ∨
    (∃ s ∈ v.route.steps, k = v.routerName cluster s ++ "-err-wrr" ∧ svc = errWrr) := by
  obtain ⟨m, hm, hw⟩ := mem_flatMap.mp h
  have hstep := (mem_loading hm).1
  rcases mem_append.mp hw with hw | hw
  · unfold backendServices at hw
    split at hw
    · obtain ⟨ref, _, hsome⟩ := mem_filterMap.mp hw
      exact .inl ⟨_, ref, backendService_name hsome⟩
    · cases hw
  · unfold ownServices at hw
    right
    split at hw
    · obtain ⟨hk, hsvc⟩ := Prod.mk.inj (mem_singleton.mp hw)
      exact .inr ⟨m.1, hstep, hk, hsvc⟩
    · split at hw
      · obtain ⟨hk, hsvc⟩ := Prod.mk.inj (mem_singleton.mp hw)
        exact .inl ⟨m.1, hstep, hk, hsvc⟩
      · cases hw

/-- The backends of a match are loaded by the first match of its name. -/
theorem exists_loading (hbalances : ∀ s' ∈ v.route.steps,
      v.routerName cluster s' = v.routerName cluster s → v.balances cluster s' = true)
    {steps : List Step} (hsub : ∀ s' ∈ steps, s' ∈ v.route.steps) (hs : s ∈ steps)
    (seen : List String) (hseen : v.routerName cluster s ∉ seen) :
    ∃ s', (s', true) ∈ v.loading cluster seen steps ∧
      v.routerName cluster s' = v.routerName cluster s := by
  induction steps generalizing seen with
  | nil => cases hs
  | cons s₀ steps ih =>
    rw [loading]
    by_cases hname : v.routerName cluster s₀ = v.routerName cluster s
    · have hloads : (v.balances cluster s₀ && !seen.contains (v.routerName cluster s₀)) = true := by
        rw [hbalances s₀ (hsub s₀ (.head _)) hname, hname]
        simpa using hseen
      refine ⟨s₀, ?_, hname⟩
      rw [hloads]
      exact .head _
    · have hrest : s ∈ steps := by
        rcases mem_cons.mp hs with rfl | hs
        · exact absurd rfl hname
        · exact hs
      have hseen' : v.routerName cluster s ∉
          if v.balances cluster s₀ && !seen.contains (v.routerName cluster s₀) then
            v.routerName cluster s₀ :: seen
          else seen := by
        split
        · exact fun hmem => (mem_cons.mp hmem).elim (fun heq => hname heq.symm) hseen
        · exact hseen
      obtain ⟨s', hs', hname'⟩ := ih (fun s' hs' => hsub s' (.tail _ hs')) hrest _ hseen'
      exact ⟨s', .tail _ hs', hname'⟩

theorem isOk_map {ε : Type u} {α : Type v} {β : Type w} (f : α → β) (x : Except ε α) :
    (x.map f).isOk = x.isOk := by
  cases x <;> rfl

/-- Whether filters can be loaded does not depend on the match. -/
theorem isOk_filters (hrule : s.rule = s'.rule)
    (hname : v.routerName cluster s = v.routerName cluster s') :
    (v.filters cluster s).isOk = (v.filters cluster s').isOk := by
  have hnames := @namedMiddlewares_names cluster v.route.namespaceOf (v.routerName cluster s')
    (pathMatchOf s.routeMatch.path) (pathMatchOf s'.routeMatch.path) 0 s'.rule.filters
  have hisOk := congrArg Except.isOk hnames
  rw [isOk_map, isOk_map] at hisOk
  rw [filters, filters, loadMiddlewares, loadMiddlewares, isOk_map, isOk_map, hrule, hname]
  exact hisOk

/-- In the visit of a match, its weighted service is that of its own backends. -/
theorem last_services_wrr (hs : s ∈ v.route.steps) (hbalances : v.balances cluster s = true) :
    ∃ path, last (v.routerName cluster s ++ "-wrr") (v.services cluster) =
      some (wrrOf cluster v.route.namespaceOf s.rule path) := by
  have hsame : ∀ s' ∈ v.route.steps, v.routerName cluster s' = v.routerName cluster s →
      v.balances cluster s' = true := by
    intro s' hs' hname
    have hrule := rule_eq_of_routerName hs' hs hname
    rw [balances, isOk_filters hrule hname, hrule]
    exact hbalances
  obtain ⟨s', hloading, hname⟩ := exists_loading hsame (fun _ h => h) hs [] not_mem_nil
  have hwrote : v.routerName cluster s ++ "-wrr" ∈ (v.services cluster).map Prod.fst := by
    have hm := mem_loading hloading
    have hmem := (wrr_mem_writes hm.2 s).mpr ⟨rfl, hname.symm⟩
    rw [(writes_eq v _ hm.2).1] at hmem
    obtain ⟨w, hw, hkey⟩ := mem_map.mp hmem
    exact mem_map.mpr ⟨w, mem_flatMap.mpr ⟨_, hloading, hw⟩, hkey⟩
  cases hlast : last (v.routerName cluster s ++ "-wrr") (v.services cluster) with
  | none => exact absurd hwrote (last_eq_none_iff.mp hlast)
  | some svc =>
    obtain ⟨_, ref, hk⟩ | ⟨s₁, hs₁, hk, rfl⟩ | ⟨s₁, _, hk, _⟩ := mem_services (mem_of_last hlast)
    · exact absurd hk.symm (serviceName_ne_wrr _ ref _)
    · have hname₁ : v.routerName cluster s₁ = v.routerName cluster s := by
        simpa using hk.symm
      rw [rule_eq_of_routerName hs₁ hs hname₁]
      exact ⟨_, rfl⟩
    · exact absurd hk (wrr_ne_err v s _)

/-- **The weighted service of a router is its own**: no other match writes under its key
    after it. -/
theorem lookup_wrr {vs : List Visit}
    (hlast : last name (built cluster vs) = some (v, s)) (hbalances : v.balances cluster s = true) :
    ∃ path, last (name ++ "-wrr") (vs.flatMap (services cluster)) =
      some (wrrOf cluster v.route.namespaceOf s.rule path) := by
  obtain ⟨pre, v', after, rfl, hv', hafter⟩ := last_flatMap _ hlast
  obtain ⟨s', hs', heq⟩ := mem_map.mp (mem_of_last hv')
  simp only [Prod.mk.injEq] at heq
  obtain ⟨rfl, rfl, rfl⟩ := heq
  obtain ⟨path, hpath⟩ := last_services_wrr hs' hbalances
  refine ⟨path, ?_⟩
  have hnone : last (v'.routerName cluster s' ++ "-wrr") (after.flatMap (services cluster)) =
      none := by
    rw [last_eq_none_iff]
    intro hmem
    obtain ⟨⟨k, svc⟩, hw, hk⟩ := mem_map.mp hmem
    obtain ⟨b, hb, hw⟩ := mem_flatMap.mp hw
    have hno := last_eq_none_iff.mp (hafter b hb)
    obtain ⟨_, ref, hkey⟩ | ⟨s₁, hs₁, hkey, _⟩ | ⟨s₁, _, hkey, _⟩ := mem_services hw
    · exact serviceName_ne_wrr _ ref _ (hkey.symm.trans hk)
    · apply hno
      have hname : b.routerName cluster s₁ = v'.routerName cluster s' := by
        simpa using hkey.symm.trans hk
      simp only [map_map, mem_map, Function.comp_apply]
      exact ⟨s₁, hs₁, hname⟩
    · exact wrr_ne_err v' s' _ (hk.symm.trans hkey)
  rw [flatMap_append, flatMap_cons, last_append, last_append, hnone, hpath]
  rfl

end Ingress.Gateway
