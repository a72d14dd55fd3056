import Ingress.Framework.Journal
import Ingress.Gateway.MatchRule
import Ingress.Provider.Normalize

/-! # Kubernetes Ingresses

    `loadConfigurationFromIngresses` of `pkg/provider/kubernetes/ingress`: every path of an
    Ingress whose backend can be loaded becomes a router and a service.  Their keys are
    normalised names.  Routers of one Ingress with the same key get a hash of their rule in
    it; the routers of all Ingresses, and all services, are written to one map each.

    What a path is loaded from, `loadService` and `parseRouterConfig`, is any function.  The
    hash is any function to words, and the order in which a map is walked is any.  No router
    transform is set.

    * `loadConfigurationFromIngresses`: the code.
    * `loadedOf`: what is loaded from an Ingress, given the Ingresses before it.
    * `Origin.words`, `Origin.serviceWords`: the words that the keys of a route are made of.
    * `path_reached_iff_kept`: which paths are left, by their words. -/

open List Journal Ingress.Provider

namespace Ingress.KubernetesIngress

/-! ## Ingresses -/

inductive PathType where
  | empty
  | exact
  | pathPrefix
  | implementationSpecific
  deriving DecidableEq, Repr

/-- `IngressServiceBackend`. -/
structure ServiceBackend where
  name : String
  portName : String
  portNumber : ℤ
  deriving DecidableEq, Repr

/-- `IngressBackend`. -/
structure Backend where
  service : Option ServiceBackend
  resource : Option String
  deriving DecidableEq, Repr

structure HTTPIngressPath where
  path : String
  pathType : Option PathType
  backend : Backend
  deriving DecidableEq, Repr

/-- `IngressRule`; `http` may be nil. -/
structure IngressRule where
  host : String
  http : Option (List HTTPIngressPath)
  deriving DecidableEq, Repr

/-- `Ingress`.  A namespace is a DNS label, so it has a letter or a digit. -/
structure IngressResource where
  namespaceName : String
  name : String
  annotations : List (String × String)
  ingressClassName : Option String
  defaultBackend : Option Backend
  rules : List IngressRule
  namespace_label : namespaceName.toList.any Char.isAlphanum = true
  deriving DecidableEq, Repr

/-- What the paths of an Ingress match. -/
def IngressResource.places (ingress : IngressResource) : List (String × String × Option PathType) :=
  ingress.rules.flatMap fun rule => (rule.http.getD []).map fun pa => (rule.host, pa.path, pa.pathType)

/-! ## Routers and services -/

structure Server where
  url : String
  fenced : Bool
  deriving DecidableEq, Repr

/-- `Service`, with its servers and other options. -/
structure Service (τ : Type) where
  servers : List Server
  options : τ
  deriving DecidableEq, Repr

/-- `RouterIng`, the configuration of the routers of an Ingress. -/
structure RouterIng (τ : Type) where
  pathMatcher : String
  entryPoints : List String
  middlewares : List String
  priority : ℤ
  ruleSyntax : String
  tls : Option τ
  observability : Option τ

structure Router (τ : Type) where
  entryPoints : List String
  middlewares : List String
  service : String
  rule : String
  ruleSyntax : String
  priority : ℤ
  tls : Option τ
  observability : Option τ

/-- `Provider`, and the names of the ingress classes it found. -/
structure Provider where
  ingressClass : String
  ingressClasses : List String
  defaultRuleSyntax : String
  strictPrefixMatching : Bool
  allowEmptyServices : Bool

/-- What the provider asks others for. -/
structure Env (τ : Type) where
  unicode : Unicode
  /-- The first ten bytes of the SHA-256 of a text, in hexadecimal. -/
  hash : String → String
  hash_word : ∀ text, hash text ≠ "" ∧ ∀ c ∈ (hash text).toList, unicode.isWord c = true
  parseRouterConfig : List (String × String) → Except String (Option (RouterIng τ))
  loadService : String → ServiceBackend → Except String (Service τ)

variable {τ : Type}

/-! ## The rule of a path -/

open Gateway

def buildHostRuleV2 (host : String) : String :=
  if "*.".toList.isPrefixOf host.toList then
    "HostRegexp(`" ++ String.ofList (replaceFirst "*.".toList
      "\x7bsubdomain:[a-zA-Z0-9-]+\x7d.".toList host.toList) ++ "`)"
  else "Host(`" ++ host ++ "`)"

def buildHostRule (host : String) : String :=
  if "*.".toList.isPrefixOf host.toList then
    "HostRegexp(`^" ++ String.ofList (replaceFirst "\\*\\.".toList
      "[a-zA-Z0-9-]+\\.".toList (quoteMeta host.toList)) ++ "$`)"
  else "Host(`" ++ host ++ "`)"

def buildStrictPrefixMatchingRule (path : String) : String :=
  if path = "/" then "PathPrefix(`/`)"
  else
    "(Path(`" ++ trimSlash path ++ "`) || PathPrefix(`" ++ trimSlash path ++ "/`))"

def buildRule (strictPrefixMatching : Bool) (matcher path : String) : String :=
  if strictPrefixMatching && matcher = "PathPrefix" then buildStrictPrefixMatchingRule path
  else matcher ++ "(`" ++ path ++ "`)"

def pathMatcher (rtConfig : Option (RouterIng τ)) (pathType : Option PathType) : String :=
  match pathType with
  | none | some .empty | some .implementationSpecific =>
    match rtConfig with
    | some config => if config.pathMatcher.isEmpty then "PathPrefix" else config.pathMatcher
    | none => "PathPrefix"
  | some .exact => "Path"
  | some .pathPrefix => "PathPrefix"

variable (p : Provider)

open RouterIng

def loadRouter (rule : IngressRule) (pa : HTTPIngressPath)
    (rtConfig : Option (RouterIng τ)) (serviceName : String) : Router τ :=
  let ruleSyntax := (rtConfig.map ruleSyntax).getD ""
  let hostRule :=
    if rule.host.isEmpty then []
    else if ruleSyntax = "v2" || (ruleSyntax.isEmpty && p.defaultRuleSyntax = "v2") then
      [buildHostRuleV2 rule.host]
    else [buildHostRule rule.host]
  let pathRule :=
    if pa.path.isEmpty then []
    else [buildRule p.strictPrefixMatching (pathMatcher rtConfig pa.pathType) pa.path]
  { entryPoints := (rtConfig.map entryPoints).getD []
    middlewares := (rtConfig.map middlewares).getD []
    service := serviceName
    rule := " && ".intercalate (hostRule ++ pathRule)
    ruleSyntax
    priority := (rtConfig.map priority).getD 0
    tls := rtConfig.bind tls
    observability := rtConfig.bind observability }

/-! ## The keys of a route -/

/-- `strings.TrimPrefix(s, "-")`. -/
def trimDash (s : String) : String :=
  if s.toList.head? = some '-' then String.ofList s.toList.tail else s

/-- The port, by its name or its number. -/
def ServiceBackend.portString (b : ServiceBackend) : String :=
  if b.portName.isEmpty then toString b.portNumber else b.portName

/-- What the keys of a route are made of: those of a path of an Ingress and of its backend, or of
    the default backend. -/
inductive Origin where
  | ofPath (namespaceName name host path : String) (backend : ServiceBackend)
  | defaultBackend
  deriving DecidableEq

/-- The key of the router, before conflicts are resolved. -/
def Origin.key (env : Env τ) : Origin → String
  | .ofPath namespaceName name host path _ => trimDash (normalize env.unicode
      (namespaceName ++ "-" ++ name ++ "-" ++ host ++ path))
  | .defaultBackend => "default-router"

/-- The key of the service. -/
def Origin.serviceName (env : Env τ) : Origin → String
  | .ofPath namespaceName _ _ _ b => normalize env.unicode
      (namespaceName ++ "-" ++ b.name ++ "-" ++ b.portString)
  | .defaultBackend => "default-backend"

/-- The words of the key of the router. -/
def Origin.words (u : Unicode) : Origin → List (List Char)
  | .ofPath namespaceName name host path _ => fields u namespaceName.toList ++
      fields u name.toList ++ fields u (host ++ path).toList
  | .defaultBackend => ["default".toList, "router".toList]

/-- The words of the key of the service. -/
def Origin.serviceWords (u : Unicode) : Origin → List (List Char)
  | .ofPath namespaceName _ _ _ b => fields u namespaceName.toList ++
      fields u b.name.toList ++ fields u b.portString.toList
  | .defaultBackend => ["default".toList, "backend".toList]

/-! ## Loading -/

/-- A path, or a default backend, that is loaded: its router, and the service this one names. -/
structure Route (env : Env τ) where
  origin : Origin
  router : Router τ
  service : Service τ
  router_service : router.service = origin.serviceName env
  words_ne : origin.words env.unicode ≠ []

def shouldProcessIngress (ingress : IngressResource) : Bool :=
  match ingress.ingressClassName with
  | some className => p.ingressClasses.contains className
  | none =>
    let annotation := (ingress.annotations.lookup "kubernetes.io/ingress.class").getD ""
    p.ingressClass = annotation || (p.ingressClass.isEmpty && annotation = "ingress")

/-- The service of a backend, unless it cannot be loaded or must not be empty. -/
def loadBackend (env : Env τ) (namespaceName : String) (backend : Backend) :
    Option (ServiceBackend × Service τ) :=
  if backend.resource.isSome then none
  else
    match backend.service with
    | none => none
    | some b =>
      match env.loadService namespaceName b with
      | .error _ => none
      | .ok service =>
        if service.servers.isEmpty && !p.allowEmptyServices then none else some (b, service)

theorem words_of_label (u : Unicode) (ingress : IngressResource) :
    fields u ingress.namespaceName.toList ≠ [] := by
  obtain ⟨c, hc, halnum⟩ := any_eq_true.mp ingress.namespace_label
  exact fields_ne_nil hc (isWord_of_isAlphanum halnum)

/-- The body of the loop over the paths. -/
def loadPath (env : Env τ) (ingress : IngressResource)
    (rtConfig : Option (RouterIng τ)) (rule : IngressRule) (pa : HTTPIngressPath) :
    Option (Route env) :=
  match loadBackend p env ingress.namespaceName pa.backend with
  | none => none
  | some (b, service) =>
    let origin := .ofPath ingress.namespaceName ingress.name rule.host pa.path b
    some {
      origin
      router := loadRouter p rule pa rtConfig (origin.serviceName env)
      service
      router_service := rfl
      words_ne := by simp [origin, Origin.words, words_of_label] }

/-- The configuration that is built. -/
structure Conf (τ : Type) where
  routers : Finmap fun _ : String => Router τ
  services : Finmap fun _ : String => Service τ

/-- The default backend of an Ingress without rules, unless there is one already. -/
def loadDefaultBackend (env : Env τ) (conf : Conf τ) (ingress : IngressResource)
    (rtConfig : Option (RouterIng τ)) (backend : Backend) : Option (Route env) :=
  if (conf.services.lookup "default-backend").isSome then none
  else
    match loadBackend p env ingress.namespaceName backend with
    | none => none
    | some (_, service) =>
      some {
        origin := .defaultBackend
        router := {
          entryPoints := (rtConfig.map entryPoints).getD []
          middlewares := (rtConfig.map middlewares).getD []
          service := "default-backend"
          rule := "PathPrefix(`/`)"
          ruleSyntax := "default"
          priority := -2147483648
          tls := rtConfig.bind tls
          observability := rtConfig.bind observability }
        service
        router_service := rfl
        words_ne := List.cons_ne_nil _ _ }

/-- What is loaded from an Ingress. -/
def routes (env : Env τ) (conf : Conf τ) (ingress : IngressResource) : List (Route env) :=
  if !shouldProcessIngress p ingress then []
  else
    match env.parseRouterConfig ingress.annotations with
    | .error _ => []
    | .ok rtConfig =>
      match ingress.rules, ingress.defaultBackend with
      | [], some backend => (loadDefaultBackend p env conf ingress rtConfig backend).toList
      | rules, _ =>
        rules.flatMap fun rule => (rule.http.getD []).filterMap (loadPath p env ingress rtConfig rule)

variable {env : Env τ}

/-- `routers`, the map from keys to conflicting routers. -/
def conflicts (rs : List (Route env)) : List (String × List (Route env)) :=
  (rs.map fun r => r.origin.key env).dedup.map fun key =>
    (key, rs.filter fun r => r.origin.key env = key)

def makeRouterKeyWithHash (env : Env τ) (key rule : String) : String :=
  key ++ "-" ++ env.hash rule

/-- The body of the loop over `routers`: what is written to the map of the routers. -/
def resolveConflict (routerKey : String) : List (Route env) → List (String × Route env)
  | [r] => [(routerKey, r)]
  | rs => rs.map fun r => (makeRouterKeyWithHash env routerKey r.router.rule, r)

/-- The loop over `routers`. -/
def resolve (routers : List (String × List (Route env))) : List (String × Route env) :=
  routers.flatMap fun entry => resolveConflict entry.1 entry.2

/-- The order in which the loop over `routers` comes to the keys, for the first, second and
    every other Ingress. -/
structure MapOrder (env : Env τ) where
  visit : ℕ → List (String × List (Route env)) → List (String × List (Route env))
  perm : ∀ n routers, (visit n routers).Perm routers

/-- The body of the loop over the Ingresses. -/
def loadIngress (order : MapOrder env) (n : ℕ) (conf : Conf τ) (ingress : IngressResource) :
    Conf τ where
  services := replay conf.services
    ((routes p env conf ingress).map fun r => (r.origin.serviceName env, r.service))
  routers := replay conf.routers
    ((resolve (order.visit n (conflicts (routes p env conf ingress)))).map fun w =>
      (w.1, w.2.router))

/-- The loop over the Ingresses, from the `n`-th on. -/
def loadFrom (p : Provider) (order : MapOrder env) : ℕ → Conf τ → List IngressResource → Conf τ
  | _, conf, [] => conf
  | n, conf, ingress :: ingresses =>
    loadFrom p order (n + 1) (loadIngress p order n conf ingress) ingresses

def loadConfigurationFromIngresses (order : MapOrder env) (ingresses : List IngressResource) :
    Conf τ :=
  loadFrom p order 0 ⟨∅, ∅⟩ ingresses

/-! ## The routes by their words -/

/-- What an Ingress asks for, whatever the others are. -/
def asked (env : Env τ) (ingress : IngressResource) : List (Route env) :=
  routes p env ⟨∅, ∅⟩ ingress

/-- One of the Ingresses asks for a service with the words of the default backend. -/
def Taken (env : Env τ) (earlier : List IngressResource) : Prop :=
  ∃ ingress ∈ earlier, ∃ r ∈ asked p env ingress,
    r.origin.serviceWords env.unicode = Origin.defaultBackend.serviceWords env.unicode

instance (env : Env τ) (earlier : List IngressResource) : Decidable (Taken p env earlier) :=
  inferInstanceAs (Decidable (∃ ingress ∈ earlier, ∃ r ∈ asked p env ingress, _ = _))

/-- What is loaded from an Ingress, given those before it: a default backend only if no service
    has its words yet. -/
def loadedOf (env : Env τ) (earlier : List IngressResource) (ingress : IngressResource) :
    List (Route env) :=
  (asked p env ingress).filter fun r => r.origin ≠ .defaultBackend ∨ ¬ Taken p env earlier

/-- What is loaded from the `n`-th Ingress. -/
def loadedAt (env : Env τ) (ingresses : List IngressResource) (n : ℕ) : List (Route env) :=
  (ingresses[n]?).elim [] (loadedOf p env (ingresses.take n))

/-- All routes, each with the number of its Ingress, in the order of the Ingresses and their
    paths. -/
def loaded (env : Env τ) (ingresses : List IngressResource) : List (ℕ × Route env) :=
  (range ingresses.length).flatMap fun n => (loadedAt p env ingresses n).map (n, ·)

/-- All routes, those of one Ingress in the order in which its map is walked. -/
def walked (order : MapOrder env) (ingresses : List IngressResource) : List (ℕ × Route env) :=
  (range ingresses.length).flatMap fun n =>
    ((order.visit n (conflicts (loadedAt p env ingresses n))).flatMap Prod.snd).map (n, ·)

/-- The words of the router of a route: the hash of its rule is one of them when another route of
    the Ingress has the same words. -/
def routerWords (rs : List (Route env)) (r : Route env) : List (List Char) :=
  if rs.countP (fun r' => r'.origin.words env.unicode = r.origin.words env.unicode) = 1 then
    r.origin.words env.unicode
  else r.origin.words env.unicode ++ [(env.hash r.router.rule).toList]

/-- A router with the rule of the path leads to the servers of its backend. -/
def Reaches (conf : Conf τ) (r : Route env) : Prop :=
  ∃ key router, conf.routers.lookup key = some router ∧ router.rule = r.router.rule ∧
    ∃ service, conf.services.lookup router.service = some service ∧
      service.servers = r.service.servers

/-- The condition: some route `x` with the rule of the path is followed by no other one with the
    words of its router; and the last route with the words of its service has the servers of the
    path. -/
def Kept (order : MapOrder env) (ingresses : List IngressResource) (r : Route env) : Prop :=
  ∃ before x after, walked p order ingresses = before ++ x :: after ∧
    x.2.router.rule = r.router.rule ∧
    (∀ y ∈ after, routerWords (loadedAt p env ingresses y.1) y.2 ≠
      routerWords (loadedAt p env ingresses x.1) x.2) ∧
    ∃ before' z after', loaded p env ingresses = before' ++ z :: after' ∧
      z.2.service.servers = r.service.servers ∧
      z.2.origin.serviceWords env.unicode = x.2.origin.serviceWords env.unicode ∧
      ∀ y ∈ after', y.2.origin.serviceWords env.unicode ≠ x.2.origin.serviceWords env.unicode

variable {p : Provider}

/-! ## Keys and words -/

section Keys

variable (env : Env τ) (o : Origin)

theorem isWords_words : IsWords env.unicode (o.words env.unicode) := by
  cases o with
  | ofPath => exact ((isWords_fields _).append (isWords_fields _)).append (isWords_fields _)
  | defaultBackend =>
    exact isWords_cons (by decide) (by decide) (isWords_cons (by decide) (by decide) nofun)

theorem isWords_serviceWords : IsWords env.unicode (o.serviceWords env.unicode) := by
  cases o with
  | ofPath => exact ((isWords_fields _).append (isWords_fields _)).append (isWords_fields _)
  | defaultBackend =>
    exact isWords_cons (by decide) (by decide) (isWords_cons (by decide) (by decide) nofun)

theorem trimDash_keyOf {u : Unicode} {ws : List (List Char)} (h : IsWords u ws) :
    trimDash (keyOf ws) = keyOf ws := by
  -- a key begins with a word, and a dash is in no word
  refine if_neg fun hhead => ?_
  cases ws with
  | nil => simp [keyOf] at hhead
  | cons w ws =>
    obtain ⟨hne, hword⟩ := h w (.head _)
    obtain ⟨c, w, rfl⟩ := exists_cons_of_ne_nil hne
    have hc : c = '-' := by
      cases ws <;> simpa [keyOf, String.intercalate_cons_cons] using hhead
    have hdash := hword c (.head _)
    rw [hc, isWord_dash] at hdash
    cases hdash

theorem key_eq : o.key env = keyOf (o.words env.unicode) := by
  cases o with
  | ofPath namespaceName name host path b =>
    rw [Origin.key, normalize_eq_keyOf, trimDash_keyOf (isWords_fields _), Origin.words,
      String.append_assoc, fields_dash, fields_dash]
  | defaultBackend => rfl

theorem serviceName_eq : o.serviceName env = keyOf (o.serviceWords env.unicode) := by
  cases o with
  | ofPath namespaceName name host path b =>
    rw [Origin.serviceName, normalize_eq_keyOf, Origin.serviceWords, fields_dash, fields_dash]
  | defaultBackend => rfl

variable {env} {o o' : Origin}

theorem key_inj : o.key env = o'.key env ↔ o.words env.unicode = o'.words env.unicode := by
  rw [key_eq, key_eq, keyOf_inj (isWords_words env o) (isWords_words env o')]

theorem serviceName_inj :
    o.serviceName env = o'.serviceName env ↔ o.serviceWords env.unicode = o'.serviceWords env.unicode := by
  rw [serviceName_eq, serviceName_eq,
    keyOf_inj (isWords_serviceWords env o) (isWords_serviceWords env o')]

variable {rs rs' : List (Route env)} {r r' : Route env}

theorem isWords_routerWords : IsWords env.unicode (routerWords rs r) := by
  unfold routerWords
  split
  · exact isWords_words env r.origin
  · refine (isWords_words env r.origin).append fun w hw => ?_
    obtain rfl := mem_singleton.mp hw
    obtain ⟨hne, hword⟩ := env.hash_word r.router.rule
    exact ⟨by simpa using hne, hword⟩

/-- **What is written** under the keys of an Ingress's map. -/
theorem resolveConflict_eq (key : String) :
    resolveConflict key (rs.filter fun r => r.origin.key env = key) =
      (rs.filter fun r => r.origin.key env = key).map fun r => (keyOf (routerWords rs r), r) := by
  -- routes share a key when they share their words, so both count the same routes
  have hcount : ∀ r ∈ rs.filter fun r => r.origin.key env = key,
      r.origin.key env = key ∧
      rs.countP (fun r' => r'.origin.words env.unicode = r.origin.words env.unicode) =
        (rs.filter fun r => r.origin.key env = key).length := by
    intro r hr
    obtain rfl : r.origin.key env = key := by simpa using (mem_filter.mp hr).2
    simp only [countP_eq_length_filter, key_inj, and_self]
  unfold resolveConflict
  split
  · next r hone =>
    obtain ⟨hkey, hlen⟩ := hcount r (by rw [hone]; exact .head _)
    rw [hone, length_singleton] at hlen
    rw [hone, map_singleton, routerWords, if_pos hlen, ← key_eq, hkey]
  · next hmany =>
    refine map_congr_left fun r hr => ?_
    obtain ⟨hkey, hlen⟩ := hcount r hr
    have hne : (rs.filter fun r => r.origin.key env = key).length ≠ 1 := fun hone => by
      obtain ⟨r', hr'⟩ := length_eq_one_iff.mp hone
      exact hmany r' hr'
    rw [routerWords, if_neg (by rw [hlen]; exact hne), keyOf_concat r.words_ne, ← key_eq, hkey,
      String.ofList_toList]
    rfl

theorem resolve_eq (order : MapOrder env) (n : ℕ) :
    resolve (order.visit n (conflicts rs)) =
      ((order.visit n (conflicts rs)).flatMap Prod.snd).map fun r => (keyOf (routerWords rs r), r) := by
  rw [resolve, map_flatMap]
  refine flatMap_congr fun entry hentry => ?_
  obtain ⟨key, -, rfl⟩ := mem_map.mp ((order.perm n _).mem_iff.mp hentry)
  exact resolveConflict_eq key

end Keys

/-! ## What the configuration holds -/

section Holds

variable {env : Env τ} {order : MapOrder env} {earlier : List IngressResource} {ingress : IngressResource}

theorem origin_loadDefaultBackend {conf : Conf τ} {rtConfig : Option (RouterIng τ)}
    {backend : Backend} {r : Route env}
    (h : r ∈ loadDefaultBackend p env conf ingress rtConfig backend) : r.origin = .defaultBackend := by
  unfold loadDefaultBackend at h
  split at h
  · cases h
  split at h
  · cases h
  · obtain rfl := Option.some.inj h
    rfl

/-- **What is loaded** from an Ingress does not depend on the keys that are written, but on the
    words that the Ingresses before it ask for. -/
theorem routes_eq {conf : Conf τ}
    (h : (conf.services.lookup "default-backend").isSome = true ↔ Taken p env earlier) :
    routes p env conf ingress = loadedOf p env earlier ingress := by
  -- only the default backend looks at what is written
  unfold loadedOf asked routes
  split
  · rfl
  split
  · rfl
  split
  · by_cases htaken : Taken p env earlier
    · rw [loadDefaultBackend, if_pos (h.mpr htaken)]
      refine (filter_eq_nil_iff.mpr fun r hr => ?_).symm
      simp [htaken, origin_loadDefaultBackend (Option.mem_toList.mp hr)]
    · rw [loadDefaultBackend, if_neg fun hsome => htaken (h.mp hsome)]
      exact (filter_eq_self.mpr fun r _ => by simp [htaken]).symm
  · refine (filter_eq_self.mpr fun r hr => ?_).symm
    obtain ⟨rule, -, hr⟩ := mem_flatMap.mp hr
    obtain ⟨pa, -, hr⟩ := mem_filterMap.mp hr
    unfold loadPath at hr
    split at hr
    · cases hr
    · obtain rfl := Option.some.inj hr
      simp

theorem loadFrom_concat (n : ℕ) (conf : Conf τ) :
    loadFrom p order n conf (earlier ++ [ingress]) =
      loadIngress p order (n + earlier.length) (loadFrom p order n conf earlier) ingress := by
  induction earlier generalizing n conf with
  | nil => rfl
  | cons first earlier ih =>
    rw [cons_append, loadFrom, ih, length_cons, loadFrom, Nat.add_right_comm, Nat.add_assoc]

theorem loadedAt_concat {n : ℕ} (hn : n < earlier.length) :
    loadedAt p env (earlier ++ [ingress]) n = loadedAt p env earlier n := by
  rw [loadedAt, loadedAt, getElem?_append_left hn, take_append_of_le_length hn.le]

theorem loadedAt_last :
    loadedAt p env (earlier ++ [ingress]) earlier.length = loadedOf p env earlier ingress := by
  simp [loadedAt]

/-- What is made of each Ingress, after one more. -/
theorem flatMap_loadedAt_concat {β : Type} (f : ℕ → List (Route env) → List β) :
    ((range (earlier ++ [ingress]).length).flatMap fun n =>
        f n (loadedAt p env (earlier ++ [ingress]) n)) =
      ((range earlier.length).flatMap fun n => f n (loadedAt p env earlier n)) ++
        f earlier.length (loadedOf p env earlier ingress) := by
  rw [length_append, length_singleton, range_succ, flatMap_append, flatMap_singleton, loadedAt_last]
  congr 1
  exact flatMap_congr fun n hn => by rw [loadedAt_concat (mem_range.mp hn)]

theorem loaded_concat : loaded p env (earlier ++ [ingress]) =
    loaded p env earlier ++ (loadedOf p env earlier ingress).map (earlier.length, ·) :=
  flatMap_loadedAt_concat fun n rs => rs.map (n, ·)

theorem taken_iff : Taken p env earlier ↔ ∃ w ∈ loaded p env earlier,
    w.2.origin.serviceName env = "default-backend" := by
  have hwords : ∀ o : Origin, o.serviceName env = "default-backend" ↔
      o.serviceWords env.unicode = Origin.defaultBackend.serviceWords env.unicode :=
    fun o => @serviceName_inj _ env o .defaultBackend
  simp only [hwords]
  induction earlier using List.reverseRecOn with
  | nil => simp [Taken, loaded]
  | append_singleton earlier ingress ih =>
    have hsplit : Taken p env (earlier ++ [ingress]) ↔ Taken p env earlier ∨
        ∃ r ∈ asked p env ingress, r.origin.serviceWords env.unicode =
          Origin.defaultBackend.serviceWords env.unicode := by
      simp [Taken, or_and_right, exists_or]
    rw [hsplit, loaded_concat]
    simp only [mem_append, or_and_right, exists_or, ← ih]
    by_cases htaken : Taken p env earlier
    · simp [htaken]
    · simp [htaken, loadedOf]

theorem walked_concat : walked p order (earlier ++ [ingress]) = walked p order earlier ++
    ((order.visit earlier.length (conflicts (loadedOf p env earlier ingress))).flatMap Prod.snd).map
      (earlier.length, ·) :=
  flatMap_loadedAt_concat fun n rs => ((order.visit n (conflicts rs)).flatMap Prod.snd).map (n, ·)

theorem isSome_iff_taken {conf : Conf τ} (h : ∀ key, conf.services.lookup key =
      last key ((loaded p env earlier).map fun w => (w.2.origin.serviceName env, w.2.service))) :
    (conf.services.lookup "default-backend").isSome = true ↔ Taken p env earlier := by
  rw [taken_iff, h, Option.isSome_iff_ne_none, ne_eq, last_eq_none_iff, not_not, map_map]
  simp [mem_map, Function.comp_def]

theorem load_concat : loadConfigurationFromIngresses p order (earlier ++ [ingress]) =
    loadIngress p order earlier.length (loadConfigurationFromIngresses p order earlier) ingress := by
  rw [loadConfigurationFromIngresses, loadFrom_concat, Nat.zero_add]
  rfl

variable (order) (ingresses : List IngressResource)

/-- **Every service** is that of the last route with its words. -/
theorem lookup_services (key : String) :
    (loadConfigurationFromIngresses p order ingresses).services.lookup key =
      last key ((loaded p env ingresses).map fun w => (w.2.origin.serviceName env, w.2.service)) := by
  induction ingresses using List.reverseRecOn generalizing key with
  | nil => rfl
  | append_singleton earlier ingress ih =>
    rw [load_concat, loadIngress, lookup_replay, ih, routes_eq (isSome_iff_taken ih), loaded_concat,
      map_append, last_append, map_map]
    rfl

theorem routes_after : routes p env (loadConfigurationFromIngresses p order earlier) ingress =
    loadedOf p env earlier ingress :=
  routes_eq (isSome_iff_taken (lookup_services order earlier))

theorem lookup_routers (key : String) :
    (loadConfigurationFromIngresses p order ingresses).routers.lookup key =
      last key ((walked p order ingresses).map fun w =>
        (keyOf (routerWords (loadedAt p env ingresses w.1) w.2), w.2.router)) := by
  induction ingresses using List.reverseRecOn with
  | nil => rfl
  | append_singleton earlier ingress ih =>
    -- the words of an earlier router do not depend on the last Ingress
    have hsame : (walked p order earlier).map (fun w =>
          (keyOf (routerWords (loadedAt p env (earlier ++ [ingress]) w.1) w.2), w.2.router)) =
        (walked p order earlier).map fun w =>
          (keyOf (routerWords (loadedAt p env earlier w.1) w.2), w.2.router) := by
      refine map_congr_left fun w hw => ?_
      obtain ⟨n, hn, hw⟩ := mem_flatMap.mp hw
      obtain ⟨r, -, rfl⟩ := mem_map.mp hw
      rw [loadedAt_concat (mem_range.mp hn)]
    rw [load_concat, loadIngress, lookup_replay, ih, routes_after, resolve_eq, walked_concat,
      map_append, last_append, hsame, map_map, map_map]
    simp only [Function.comp_def, loadedAt_last]

end Holds

/-! ## Paths that are lost -/

/-- **A path is reached** exactly when it is kept. -/
theorem path_reached_iff_kept {env : Env τ} (order : MapOrder env) (ingresses : List IngressResource)
    (r : Route env) :
    Reaches (loadConfigurationFromIngresses p order ingresses) r ↔ Kept p order ingresses r := by
  have hrouter : ∀ x y : ℕ × Route env, keyOf (routerWords (loadedAt p env ingresses y.1) y.2) =
        keyOf (routerWords (loadedAt p env ingresses x.1) x.2) ↔
      routerWords (loadedAt p env ingresses y.1) y.2 = routerWords (loadedAt p env ingresses x.1) x.2 :=
    fun x y => keyOf_inj isWords_routerWords isWords_routerWords
  simp only [Reaches, lookup_routers, lookup_services, last_map_iff]
  constructor
  · rintro ⟨_, _, ⟨pre, x, post, hwalked, rfl, rfl, hlast⟩, hrule, _,
      ⟨pre', z, post', hloaded, hname, rfl, hlast'⟩, hservers⟩
    rw [x.2.router_service, serviceName_inj] at hname
    simp only [x.2.router_service, ne_eq, serviceName_inj] at hlast'
    simp only [ne_eq, hrouter] at hlast
    exact ⟨pre, x, post, hwalked, hrule, hlast, pre', z, post', hloaded, hservers, hname, hlast'⟩
  · rintro ⟨pre, x, post, hwalked, hrule, hlast, pre', z, post', hloaded, hservers, hname, hlast'⟩
    refine ⟨_, _, ⟨pre, x, post, hwalked, rfl, rfl, ?_⟩, hrule, _,
      ⟨pre', z, post', hloaded, ?_, rfl, ?_⟩, hservers⟩
    · simpa only [ne_eq, hrouter] using hlast
    · rw [x.2.router_service, serviceName_inj]
      exact hname
    · simpa only [x.2.router_service, ne_eq, serviceName_inj] using hlast'

/-- A provider that takes all Ingresses without a class. -/
def plainProvider : Provider := ⟨"", [], "", false, false⟩

/-- A cluster where every service has one server. -/
def plainEnv : Env Unit where
  unicode := asciiWords
  hash := fun _ => "0"
  hash_word := fun _ => by simp [asciiWords]
  parseRouterConfig := fun _ => .ok none
  loadService := fun namespaceName b => .ok ⟨[⟨"http://" ++ b.name ++ "." ++ namespaceName, false⟩], ()⟩

/-- Maps are walked in the order of their first keys. -/
def plainOrder : MapOrder plainEnv := ⟨fun _ routers => routers, fun _ _ => .refl _⟩

/-- An Ingress of the namespace `a` with one path for a host. -/
def ingressFor (name host service : String) : IngressResource where
  namespaceName := "a"
  name
  annotations := []
  ingressClassName := none
  defaultBackend := none
  rules := [⟨host, some [⟨"/", some .pathPrefix, ⟨some ⟨service, "", 80⟩, none⟩⟩]⟩]
  namespace_label := by decide

/-- The hosts `c.d` and `d` of the Ingresses `b` and `b-c`: their routers have the same words, and
    the path of the first one is lost. -/
theorem path_of_other_ingress_lost :
    ([ingressFor "b" "c.d" "one", ingressFor "b-c" "d" "two"].flatMap IngressResource.places).Nodup ∧
    ∃ r, routes plainProvider plainEnv ⟨∅, ∅⟩ (ingressFor "b" "c.d" "one") = [r] ∧
      r.router.rule = "Host(`c.d`) && PathPrefix(`/`)" ∧ r.service.servers ≠ [] ∧
      ¬ Reaches (loadConfigurationFromIngresses plainProvider plainOrder
        [ingressFor "b" "c.d" "one", ingressFor "b-c" "d" "two"]) r := by
  have hwrote : (walked plainProvider plainOrder
      [ingressFor "b" "c.d" "one", ingressFor "b-c" "d" "two"]).map (fun w =>
        (keyOf (routerWords (loadedAt plainProvider plainEnv
          [ingressFor "b" "c.d" "one", ingressFor "b-c" "d" "two"] w.1) w.2), w.2.router.rule)) =
      [("a-b-c-d", "Host(`c.d`) && PathPrefix(`/`)"), ("a-b-c-d", "Host(`d`) && PathPrefix(`/`)")] := by
    decide
  refine ⟨by decide, _, rfl, by decide, by decide, ?_⟩
  rintro ⟨key, router, hrouter, hrule, -⟩
  rw [lookup_routers] at hrouter
  -- What is left at the only key has the other rule.
  have hlast := last_map Router.rule key ((walked plainProvider plainOrder
    [ingressFor "b" "c.d" "one", ingressFor "b-c" "d" "two"]).map fun w =>
      (keyOf (routerWords (loadedAt plainProvider plainEnv
        [ingressFor "b" "c.d" "one", ingressFor "b-c" "d" "two"] w.1) w.2), w.2.router))
  rw [hrouter, Option.map_some, hrule, map_map] at hlast
  replace hlast := (congrArg (last key) hwrote).symm.trans hlast
  by_cases hkey : "a-b-c-d" = key
  · simp only [last, if_pos hkey] at hlast
    exact absurd (Option.some.inj hlast) (by decide)
  · simp only [last, if_neg hkey] at hlast
    cases hlast

end Ingress.KubernetesIngress
