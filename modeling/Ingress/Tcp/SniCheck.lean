import Ingress.Framework.Text
import Ingress.Muxer.Http
import Ingress.Muxer.Tcp
import Ingress.Service.Context

/-! # TLS Options and the SNI Check

    The TLS options of an HTTPS connection are chosen from the server name of the
    handshake (SNI): `buildEntryPointHandler` (`pkg/server/router/tcp`) collects the
    domains of the HTTP routers with their options, and `SetHTTPSForwarder` turns
    them into the routes of a TCP muxer.

    A request may name another host than the handshake did.  `SNICheck`
    (`pkg/middlewares/snicheck`) has its own table of the options of each domain, and
    refuses a request when the table has different options for the two names.

    A TLS configuration is identified with the name of its options.

    * `buildEntryPointHandler`, `muxerHTTPS`, `serveHTTP`: the code.
    * `Guarded`: requests are served over the options of their host only.
    * `guarded_iff`: when that is the case. -/

open Outcome Dispatch Ingress.Muxer Ingress.Service Finmap String Text

namespace Ingress.SniCheck

/-! ## Texts -/

/-- What the code takes from elsewhere: the letters of Unicode, `net.SplitHostPort`,
    the names of the HTTP matchers, and the other matchers of the TCP muxer. -/
structure Env where
  toLower : Char → Char
  /-- The representative of a character under simple case folding. -/
  fold : Char → Char
  splitHostPort : String → Option String
  httpMatchers : List String
  engines : TcpMuxer.Engines
  tcpFuncsV2 : MatcherFuncs TcpMuxer.Matcher
  toLower_ascii : ∀ c : Char, c.toNat < 128 → toLower c = c.toLower

/-- `strings.ToLower`. -/
def Env.lower (env : Env) (s : String) : String :=
  ofList (s.toList.map env.toLower)

def Env.equalFold (env : Env) (s t : String) : Bool :=
  s.toList.map env.fold = t.toList.map env.fold

def Env.canonicalDomain (env : Env) (domain : String) : String :=
  env.lower (trimSpace domain)

/-! ## The options of the domains -/

def defaultTLSConfigName : String :=
  "default"

/-- An HTTP router: its name, its rule and, when it has TLS, the options it names. -/
structure RouterHTTP where
  name : String
  rule : String
  tls : Option String
  deriving DecidableEq, Repr

/-- The maps of `buildEntryPointHandler`.  The configurations of a domain are listed
    by the names of their options, each name once. -/
structure Tables where
  tlsOptionsForHost : Finmap fun _ : String => String
  tlsOptionsForHostSNI : Finmap fun _ : String => List String
  hostHTTPTLSConfig : Finmap fun _ : String => String

/-- The maps at the start. -/
def Tables.empty : Tables where
  tlsOptionsForHost := ∅
  tlsOptionsForHostSNI := ∅
  hostHTTPTLSConfig := ∅

/-- The name of the options of a router. -/
def tlsOptionsName (routerName options : String) : String :=
  if options ≠ "" ∧ options ≠ defaultTLSConfigName then
    getQualifiedName (addInContext (rootCtx none) routerName) options
  else defaultTLSConfigName

/-- One domain of a router. -/
def Tables.addDomain (name : String) (t : Tables) (domain : String) : Tables :=
  let names := (t.tlsOptionsForHostSNI.lookup domain).getD []
  { t with
    tlsOptionsForHostSNI :=
      t.tlsOptionsForHostSNI.insert domain (if name ∈ names then names else names ++ [name])
    tlsOptionsForHost := t.tlsOptionsForHost.insert domain
      (match t.tlsOptionsForHost.lookup domain with
      | some other => if other ≠ name then defaultTLSConfigName else name
      | none => name) }

def Tables.addHTTPTLSConfig (t : Tables) (sniHost config : String) : Tables :=
  { t with hostHTTPTLSConfig := t.hostHTTPTLSConfig.insert sniHost config }

open Tables

/-- One HTTP router. -/
def Tables.addRouter (env : Env) (t : Tables) (router : RouterHTTP) : Tables :=
  match router.tls with
  | none => t
  | some options =>
    match HttpMuxer.parseDomains env.lower env.httpMatchers router.rule with
    | .error _ => t
    | .ok domains =>
      let t := if domains = [] then t.addHTTPTLSConfig "*" defaultTLSConfigName else t
      domains.foldl (addDomain (tlsOptionsName router.name options)) t

/-- The configuration of a domain with these options. -/
def configOf (names : List String) : String :=
  match names with
  | [name] => name
  | _ => defaultTLSConfigName

/-- The loop over `tlsOptionsForHostSNI`. -/
def Tables.addConfigs (t : Tables) (order : List String) : Tables :=
  order.foldl (fun t hostSNI => t.addHTTPTLSConfig hostSNI
    (configOf ((t.tlsOptionsForHostSNI.lookup hostSNI).getD []))) t

/-- The order in which a loop ranges over a map. -/
structure Ranges {β : Type} (m : Finmap fun _ : String => β) (order : List String) : Prop where
  nodup : order.Nodup
  mem : ∀ k, k ∈ order ↔ k ∈ m

/-- The routers of an entry point, in the order of the loop over them, and the orders
    of the loops over the two maps. -/
structure Setup (env : Env) where
  routers : List RouterHTTP
  sniOrder : List String
  configOrder : List String
  sorter : TcpMuxer.RouteSorter TcpMuxer.Matcher String
  sniRanges : Ranges (routers.foldl (addRouter env) .empty).tlsOptionsForHostSNI sniOrder
  configRanges :
    Ranges ((routers.foldl (addRouter env) .empty).addConfigs sniOrder).hostHTTPTLSConfig
      configOrder

variable {env : Env}

/-- The maps after `buildEntryPointHandler`. -/
def Setup.buildEntryPointHandler (setup : Setup env) : Tables :=
  (setup.routers.foldl (addRouter env) .empty).addConfigs setup.sniOrder

/-! ## The handshake -/

/-- The rule of a domain. -/
def hostSNIRule (sniHost : String) : String :=
  "HostSNI(`" ++ sniHost ++ "`)"

/-- The call of `AddRoute` in `SetHTTPSForwarder`. -/
def forwarderRoute (configs : Finmap fun _ : String => String) (sniHost : String) :
    TcpMuxer.AddRoute String where
  rule := hostSNIRule sniHost
  syntaxName := ""
  priority := TcpMuxer.getRulePriority (hostSNIRule sniHost)
  handler := (configs.lookup sniHost).getD defaultTLSConfigName

/-- `muxerHTTPS` after `SetHTTPSForwarder` and the connections since. -/
def Setup.muxerHTTPS (setup : Setup env) (conns : List TcpMuxer.ConnData) :
    TcpMuxer.Muxer TcpMuxer.Matcher String :=
  TcpMuxer.Muxer.run TcpMuxer.Matcher.call setup.sorter (TcpMuxer.tcpFuncs env.engines)
    env.tcpFuncsV2 (setup.configOrder.map (fun sniHost =>
      .add (forwarderRoute setup.buildEntryPointHandler.hostHTTPTLSConfig sniHost)) ++
      conns.map .serve)

/-- The options of a handshake: those of the route that matches, or the default. -/
def Setup.applied (setup : Setup env) (conns : List TcpMuxer.ConnData)
    (conn : TcpMuxer.ConnData) : String :=
  (((setup.muxerHTTPS conns).matchConn TcpMuxer.Matcher.call conn).1.1).getD defaultTLSConfigName

/-! ## The check -/

/-- A request: the server name of its handshake, and what its host is taken from. -/
structure Request where
  tls : Option String
  cnameFlatten : String
  canonizedHost : String
  host : String

def getHost (env : Env) (req : Request) : String :=
  if req.cnameFlatten ≠ "" then req.cnameFlatten
  else if req.canonizedHost ≠ "" then req.canonizedHost
  else trimSpace ((env.splitHostPort req.host).getD req.host)

def findTLSOptName (tlsOptionsForHost : Finmap fun _ : String => String) (host : String)
    (fqdn : Bool) : String :=
  match tlsOptionsForHost.lookup host with
  | some tlsOptions => tlsOptions
  | none =>
    if !fqdn then ""
    else if host.toList.getLast? = some '.' then
      (tlsOptionsForHost.lookup (ofList host.toList.dropLast)).getD ""
    else (tlsOptionsForHost.lookup (host ++ ".")).getD ""

def findTLSOptionName (env : Env) (tlsOptionsForHost : Finmap fun _ : String => String)
    (host : String) (fqdn : Bool) : String :=
  if findTLSOptName tlsOptionsForHost host fqdn ≠ "" then findTLSOptName tlsOptionsForHost host fqdn
  else if findTLSOptName tlsOptionsForHost (env.lower host) fqdn ≠ "" then
    findTLSOptName tlsOptionsForHost (env.lower host) fqdn
  else defaultTLSConfigName

/-- `ServeHTTP`: whether the request gets through to the next handler. -/
def serveHTTP (env : Env) (tlsOptionsForHost : Finmap fun _ : String => String) (req : Request) :
    Bool :=
  match req.tls with
  | none => true
  | some name =>
    let host := getHost env req
    let serverName := trimSpace name
    env.equalFold host serverName ||
      findTLSOptionName env tlsOptionsForHost host true =
        findTLSOptionName env tlsOptionsForHost serverName false

/-- Whatever connections there were before, a request that gets through is served
    over the options of its host; the server name being not empty, in lower case, and
    without a period at its end. -/
def Setup.Guarded (setup : Setup env) : Prop :=
  ∀ (conns : List TcpMuxer.ConnData) (conn : TcpMuxer.ConnData) (req : Request) (sni : String),
    req.tls = some sni → trimSpace sni ≠ "" → env.lower (trimSpace sni) = trimSpace sni →
    (trimSpace sni).toList.getLast? ≠ some '.' →
    conn.serverName = env.canonicalDomain (env.canonicalDomain sni) →
    serveHTTP env setup.buildEntryPointHandler.tlsOptionsForHost req = true →
    setup.applied conns conn =
      findTLSOptionName env setup.buildEntryPointHandler.tlsOptionsForHost (getHost env req) true

/-! ## The tables -/

theorem getQualifiedName_ne_empty (ctx : Ctx) {name : String} (h : name ≠ "") :
    getQualifiedName ctx name ≠ "" := by
  unfold getQualifiedName
  split
  · intro hempty
    have hlist := congrArg toList hempty
    simp [makeQualifiedName] at hlist
  · exact h

theorem tlsOptionsName_ne_empty (name options : String) : tlsOptionsName name options ≠ "" := by
  unfold tlsOptionsName
  split
  · next h => exact getQualifiedName_ne_empty _ h.1
  · decide

/-- The two tables of the domains agree, and no domain has a configuration yet. -/
structure Tables.Consistent (t : Tables) : Prop where
  domains : ∀ d, (t.tlsOptionsForHostSNI.lookup d = none ∧ t.tlsOptionsForHost.lookup d = none) ∨
    ∃ names, names ≠ [] ∧ (∀ n ∈ names, n ≠ "") ∧
      t.tlsOptionsForHostSNI.lookup d = some names ∧
      t.tlsOptionsForHost.lookup d = some (configOf names)
  configs : ∀ d c, t.hostHTTPTLSConfig.lookup d = some c → d = "*" ∧ c = defaultTLSConfigName

theorem configOf_append {names : List String} (hne : names ≠ []) (name : String) :
    configOf (if name ∈ names then names else names ++ [name]) =
      if configOf names ≠ name then defaultTLSConfigName else name := by
  match names with
  | [n] =>
    by_cases h : n = name
    · simp [configOf, h]
    · simp [configOf, h, Ne.symm h]
  | n₁ :: n₂ :: rest =>
    by_cases hdef : defaultTLSConfigName = name <;> split <;> simp [configOf, hdef]

theorem Tables.Consistent.addDomain {t : Tables} (h : t.Consistent) {name : String}
    (hname : name ≠ "") (dom : String) : (t.addDomain name dom).Consistent where
  domains := by
    intro d
    by_cases hd : d = dom
    · subst hd
      refine .inr ?_
      rcases h.domains d with ⟨hsni, hhost⟩ | ⟨names, hne, hnames, hsni, hhost⟩
      · refine ⟨[name], by simp, by simpa using hname, ?_, ?_⟩
        · simp [Tables.addDomain, hsni]
        · simp [Tables.addDomain, hhost, configOf]
      · refine ⟨if name ∈ names then names else names ++ [name], ?_, ?_, ?_, ?_⟩
        · split <;> simp [hne]
        · split
          · exact hnames
          · simpa [or_imp, forall_and] using ⟨hnames, hname⟩
        · simp [Tables.addDomain, hsni]
        · simp [Tables.addDomain, hhost, configOf_append hne]
    · simpa [Tables.addDomain, lookup_insert_of_ne _ hd] using h.domains d
  configs := h.configs

theorem Tables.Consistent.addRouter {t : Tables} (h : t.Consistent) (router : RouterHTTP) :
    (t.addRouter env router).Consistent := by
  unfold Tables.addRouter
  split
  · exact h
  · split
    · exact h
    · next doms _ =>
      have hstart : (if doms = [] then t.addHTTPTLSConfig "*" defaultTLSConfigName
          else t).Consistent := by
        split
        · refine ⟨h.domains, fun d c hlook => ?_⟩
          by_cases hd : d = "*"
          · subst hd
            simp only [addHTTPTLSConfig, lookup_insert, Option.some.injEq] at hlook
            exact ⟨rfl, hlook.symm⟩
          · exact h.configs d c (by simpa [addHTTPTLSConfig, hd] using hlook)
        · exact h
      exact List.foldlRecOn doms _ hstart fun t ht dom _ =>
        ht.addDomain (tlsOptionsName_ne_empty _ _) dom

theorem consistent_routers (rs : List RouterHTTP) : (rs.foldl (addRouter env) .empty).Consistent :=
  List.foldlRecOn rs _ ⟨fun _ => .inl ⟨rfl, rfl⟩, fun _ _ h => by cases h⟩
    fun _ ht router _ => ht.addRouter router

/-- The configurations after the loop over the domains. -/
theorem lookup_addConfigs (t : Tables) (order : List String) (d : String) :
    (t.addConfigs order).tlsOptionsForHost = t.tlsOptionsForHost ∧
    (t.addConfigs order).tlsOptionsForHostSNI = t.tlsOptionsForHostSNI ∧
    (t.addConfigs order).hostHTTPTLSConfig.lookup d =
      if d ∈ order then some (configOf ((t.tlsOptionsForHostSNI.lookup d).getD []))
      else t.hostHTTPTLSConfig.lookup d := by
  induction order generalizing t with
  | nil => exact ⟨rfl, rfl, rfl⟩
  | cons e order ih =>
    obtain ⟨hhost, hsni, hcfg⟩ := ih (t.addHTTPTLSConfig e
      (configOf ((t.tlsOptionsForHostSNI.lookup e).getD [])))
    refine ⟨hhost, hsni, ?_⟩
    have hstep : (t.addConfigs (e :: order)) = (t.addHTTPTLSConfig e
      (configOf ((t.tlsOptionsForHostSNI.lookup e).getD []))).addConfigs order := rfl
    rw [hstep, hcfg]
    by_cases hd : d = e
    · subst hd
      simp [addHTTPTLSConfig]
    · simp [addHTTPTLSConfig, hd]

variable {d n : String}

section Tables

variable (setup : Setup env)

/-- The table of the check. -/
def Setup.table : Finmap fun _ : String => String :=
  setup.buildEntryPointHandler.tlsOptionsForHost

/-- The options that the table has for a name. -/
def Setup.options (s : String) : String :=
  (setup.table.lookup s).getD defaultTLSConfigName

theorem Setup.table_eq :
    setup.table = (setup.routers.foldl (addRouter env) .empty).tlsOptionsForHost :=
  (lookup_addConfigs _ _ "").1

/-- The names of options are not empty. -/
theorem Setup.option_ne_empty (h : setup.table.lookup d = some n) : n ≠ "" := by
  rw [setup.table_eq] at h
  rcases (consistent_routers setup.routers).domains d with ⟨_, hnone⟩ | ⟨names, hne, hnames, _, hd⟩
  · rw [hnone] at h
    cases h
  · rw [hd] at h
    cases h
    unfold configOf
    split
    · exact hnames _ (by simp)
    · decide

/-- The configuration of a domain is that of its options in the table. -/
theorem Setup.config_of_option (h : setup.table.lookup d = some n) :
    setup.buildEntryPointHandler.hostHTTPTLSConfig.lookup d = some n := by
  rw [setup.table_eq] at h
  rcases (consistent_routers setup.routers).domains d with ⟨_, hnone⟩ | ⟨names, _, _, hsni, hd⟩
  · rw [hnone] at h
    cases h
  · have hmem : d ∈ setup.sniOrder := by
      rw [setup.sniRanges.mem, ← lookup_isSome, hsni]
      rfl
    rw [Setup.buildEntryPointHandler, (lookup_addConfigs _ _ d).2.2, if_pos hmem, hsni, ← h, hd]
    rfl

/-- Beyond the domains only `*` may have a configuration, and it is the default one. -/
theorem Setup.config_cases {d c : String}
    (h : setup.buildEntryPointHandler.hostHTTPTLSConfig.lookup d = some c) :
    setup.table.lookup d = some c ∨
      setup.table.lookup d = none ∧ d = "*" ∧ c = defaultTLSConfigName := by
  rw [setup.table_eq]
  rw [Setup.buildEntryPointHandler, (lookup_addConfigs _ _ d).2.2] at h
  rcases (consistent_routers setup.routers).domains d with ⟨hsni, hnone⟩ | ⟨names, _, _, hsni, hd⟩
  · have hmem : d ∉ setup.sniOrder := by
      rw [setup.sniRanges.mem, ← lookup_isSome, hsni]
      simp
    rw [if_neg hmem] at h
    exact .inr ⟨hnone, (consistent_routers setup.routers).configs d c h⟩
  · have hmem : d ∈ setup.sniOrder := by
      rw [setup.sniRanges.mem, ← lookup_isSome, hsni]
      rfl
    rw [if_pos hmem, hsni] at h
    exact .inl (hd.trans h)

end Tables

/-! ## Looking up a name -/

/-- A server name, as the check and the muxer see it. -/
structure ServerName (env : Env) (s : String) : Prop where
  nonempty : s ≠ ""
  lower : env.lower s = s
  period : s.toList.getLast? ≠ some '.'
  trimmed : trimSpace s = s

theorem serverName_of_trimmed {sni : String} (hne : trimSpace sni ≠ "")
    (hlower : env.lower (trimSpace sni) = trimSpace sni)
    (hperiod : (trimSpace sni).toList.getLast? ≠ some '.') : ServerName env (trimSpace sni) :=
  ⟨hne, hlower, hperiod, trimSpace_trimSpace sni⟩

variable {s : String}

theorem ServerName.canonicalDomain (h : ServerName env s) : env.canonicalDomain s = s := by
  rw [Env.canonicalDomain, h.trimmed, h.lower]

section Lookup

variable (setup : Setup env)

theorem findTLSOptName_of_lookup (fqdn : Bool)
    (h : setup.table.lookup d = some n) : findTLSOptName setup.table d fqdn = n := by
  simp [findTLSOptName, h]

theorem findTLSOptionName_of_lookup (fqdn : Bool)
    (h : setup.table.lookup d = some n) : findTLSOptionName env setup.table d fqdn = n := by
  rw [findTLSOptionName, findTLSOptName_of_lookup setup fqdn h, if_pos (setup.option_ne_empty h)]

/-- The options that the check finds for a server name. -/
theorem findTLSOptionName_serverName (hs : ServerName env s) :
    findTLSOptionName env setup.table s false = setup.options s := by
  unfold Setup.options
  cases h : setup.table.lookup s with
  | some n => exact findTLSOptionName_of_lookup setup false h
  | none =>
    have hname : findTLSOptName setup.table s false = "" := by simp [findTLSOptName, h]
    rw [findTLSOptionName, hs.lower, hname]
    rfl

/-- A text that is longer than any domain. -/
def Setup.stranger (extra : ℕ) : String :=
  ofList (List.replicate (setup.table.keys.sup length + extra + 1) 'a')

theorem lookup_of_longer (h : setup.table.keys.sup length < s.length) :
    setup.table.lookup s = none := by
  rw [lookup_eq_none]
  intro hmem
  exact absurd (Finset.le_sup (f := length) (mem_keys.mpr hmem)) (by omega)

theorem length_stranger (extra : ℕ) : (setup.stranger extra).length =
    setup.table.keys.sup length + extra + 1 := by
  simp [Setup.stranger, ← length_toList]

theorem lower_stranger (extra : ℕ) : env.lower (setup.stranger extra) = setup.stranger extra := by
  have ha : env.toLower 'a' = 'a' := env.toLower_ascii 'a' (by decide)
  simp [Env.lower, Setup.stranger, ha]

theorem findTLSOptionName_stranger (extra : ℕ) :
    findTLSOptionName env setup.table (setup.stranger extra) true = defaultTLSConfigName := by
  have hlast : (setup.stranger extra).toList.getLast? ≠ some '.' := by
    simp [Setup.stranger, List.getLast?_replicate]
  have hname : findTLSOptName setup.table (setup.stranger extra) true = "" := by
    have hlook := lookup_of_longer setup (s := setup.stranger extra)
      (by rw [length_stranger]; omega)
    have hperiod := lookup_of_longer setup (s := setup.stranger extra ++ ".")
      (by rw [length_append, length_stranger]; omega)
    simp [findTLSOptName, hlook, hperiod, hlast]
  simp [findTLSOptionName, lower_stranger, hname]

end Lookup

/-! ## What the check has to agree on -/

/-- The handshakes apply the options that the table has for the server name. -/
def Setup.Handshakes (setup : Setup env) : Prop :=
  ∀ (conns : List TcpMuxer.ConnData) (conn : TcpMuxer.ConnData), ServerName env conn.serverName →
    setup.applied conns conn = setup.options conn.serverName

/-- A host that is taken for the server name has its options. -/
def Setup.Hosts (setup : Setup env) : Prop :=
  ∀ s host, ServerName env s → env.equalFold host s = true →
    findTLSOptionName env setup.table host true = setup.options s

/-- A request for `host` over a connection whose server name is `s`. -/
def requestFor (s host : String) : Request where
  tls := some s
  cnameFlatten := ""
  canonizedHost := host
  host := ""

theorem getHost_requestFor (s : String) {host : String} (h : host ≠ "") :
    getHost env (requestFor s host) = host := by
  simp [getHost, requestFor, h]

theorem equalFold_refl (s : String) : env.equalFold s s = true := by
  simp [Env.equalFold]

theorem length_of_equalFold {t : String} (h : env.equalFold s t = true) : s.length = t.length := by
  have hmap := of_decide_eq_true h
  simpa [← length_toList] using congrArg List.length hmap

/-- Requests are served over the options of their host exactly when the handshakes,
    and the hosts that are taken for the server name, agree with the table. -/
theorem guarded_iff_agree (setup : Setup env) : setup.Guarded ↔ setup.Handshakes ∧ setup.Hosts := by
  constructor
  · intro h
    -- the request for a host over the connection, when it gets through
    have hserved : ∀ conns (conn : TcpMuxer.ConnData) host, ServerName env conn.serverName →
        host ≠ "" → (env.equalFold host conn.serverName = true ∨
          findTLSOptionName env setup.table host true = setup.options conn.serverName) →
        setup.applied conns conn = findTLSOptionName env setup.table host true := by
      intro conns conn host hs hhost hpass
      have hguard := h conns conn (requestFor conn.serverName host) conn.serverName rfl
      rw [hs.trimmed, hs.canonicalDomain, hs.canonicalDomain, getHost_requestFor _ hhost] at hguard
      refine hguard hs.nonempty hs.lower hs.period rfl ?_
      have hsni := findTLSOptionName_serverName setup hs
      have hreq : (requestFor conn.serverName host).tls = some conn.serverName := rfl
      simp only [serveHTTP, hreq, getHost_requestFor _ hhost, hs.trimmed, Bool.or_eq_true,
        decide_eq_true_eq]
      rcases hpass with hfold | hfind
      · exact .inl hfold
      · exact .inr (hfind.trans hsni.symm)
    have hhandshakes : setup.Handshakes := by
      intro conns conn hs
      cases hlook : setup.table.lookup conn.serverName with
      | some n =>
        rw [hserved conns conn _ hs hs.nonempty (.inl (equalFold_refl _)),
          findTLSOptionName_of_lookup setup true hlook, Setup.options, hlook]
        rfl
      | none =>
        -- a host that no router knows has the default options
        have hdef : setup.options conn.serverName = defaultTLSConfigName := by
          rw [Setup.options, hlook]
          rfl
        have hstranger := findTLSOptionName_stranger setup 0
        have hne : setup.stranger 0 ≠ "" := by
          intro hempty
          have hlen := length_stranger setup 0
          rw [hempty] at hlen
          simp at hlen
        rw [hserved conns conn _ hs hne (.inr (hstranger.trans hdef.symm)), hstranger, hdef]
    refine ⟨hhandshakes, fun s host hs hfold => ?_⟩
    have hne : host ≠ "" := by
      rintro rfl
      have hlen := length_of_equalFold hfold
      exact hs.nonempty (length_eq_zero_iff.mp hlen.symm)
    rw [← hserved [] ⟨s, "", []⟩ host hs hne (.inl hfold)]
    exact hhandshakes [] ⟨s, "", []⟩ hs
  · rintro ⟨hhandshakes, hhosts⟩ conns conn req sni htls hne hlower hperiod hconn hserve
    have hs := serverName_of_trimmed hne hlower hperiod
    have hcanonical : env.canonicalDomain sni = trimSpace sni := hlower
    rw [hcanonical, hs.canonicalDomain] at hconn
    rw [hhandshakes conns conn (hconn ▸ hs), hconn]
    simp only [serveHTTP, htls, Bool.or_eq_true, decide_eq_true_eq] at hserve
    rcases hserve with hfold | hfind
    · exact (hhosts _ _ hs hfold).symm
    · exact (hfind.trans (findTLSOptionName_serverName setup hs)).symm

end Ingress.SniCheck
