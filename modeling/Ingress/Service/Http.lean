import Ingress.Framework.Reference
import Ingress.LoadBalancer.FailoverWriter
import Ingress.Service.Context

/-! # HTTP Services

    The builder of HTTP services (`pkg/server/service`).  A service is a load
    balancer of servers, or refers to other services by name: weighted, highest
    random weight, mirroring and failover services.  The builder follows the
    references, with the services under construction in the context; what it has
    built it keeps, and what failed it disables.

    * `buildHTTP`: the code, with a bound on the depth of calls.
    * `refs`, `Broken`: the reference graph of a configuration.
    * `Inv`: what the managers that calls of the builder lead to have in common.
    * `buildHTTP_settles`: building comes to an end, and with which outcome. -/

open LTS Outcome Reference Finmap

namespace Ingress.Service.Http

open Failover (HTTPCodeRanges)

/-! ## Configuration -/

/-- The strategy of a load balancer of servers. -/
inductive BalancerStrategy where
  | empty
  | wrr
  | p2c
  | hrw
  | leastTime
  | unsupported (name : String)
  deriving DecidableEq, Repr

/-- A load balancer of servers, by URL. -/
structure ServersLoadBalancer where
  servers : List String
  strategy : BalancerStrategy
  healthCheck : Bool
  serversTransport : String
  deriving DecidableEq, Repr

structure GRPCStatus where
  code : Nat
  msg : String
  deriving DecidableEq, Repr

/-- A child of a weighted service: a reference or a fixed answer. -/
structure WRRService where
  name : String
  weight : Option Int
  headers : Option (List (String × String))
  status : Option Int
  grpcStatus : Option GRPCStatus
  deriving DecidableEq, Repr

/-- A weighted service. -/
structure WeightedRoundRobin where
  services : List WRRService
  healthCheck : Bool
  deriving DecidableEq, Repr

/-- A child of a highest random weight service. -/
structure HRWService where
  name : String
  weight : Option Int
  deriving DecidableEq, Repr

/-- A highest random weight service. -/
structure HighestRandomWeight where
  services : List HRWService
  healthCheck : Bool
  deriving DecidableEq, Repr

structure MirrorService where
  name : String
  percent : Int
  deriving DecidableEq, Repr

/-- A mirroring service. -/
structure Mirroring where
  service : String
  mirrorBody : Option Bool
  maxBodySize : Option Int
  mirrors : List MirrorService
  healthCheck : Bool
  deriving DecidableEq, Repr

/-- The errors of a failover service. -/
structure FailoverError where
  maxRequestBodyBytes : Option Int
  status : List String
  deriving DecidableEq, Repr

structure FailoverService where
  service : String
  fallback : String
  healthCheck : Bool
  errors : Option FailoverError
  deriving DecidableEq, Repr

/-- A service: one field for each type. -/
structure HTTPService where
  middlewares : List String
  loadBalancer : Option ServersLoadBalancer
  highestRandomWeight : Option HighestRandomWeight
  weighted : Option WeightedRoundRobin
  mirroring : Option Mirroring
  failover : Option FailoverService
  deriving DecidableEq, Repr

/-- A service with no type yet. -/
def HTTPService.blank : HTTPService where
  middlewares := []
  loadBalancer := none
  highestRandomWeight := none
  weighted := none
  mirroring := none
  failover := none

/-- The fields of a service that are set, its middlewares apart. -/
def HTTPService.types (service : HTTPService) : Nat :=
  service.loadBalancer.toList.length + service.highestRandomWeight.toList.length +
    service.weighted.toList.length + service.mirroring.toList.length +
      service.failover.toList.length

/-! ## Handlers -/

/-- What is built. -/
inductive Handler where
  | servers (strategy : BalancerStrategy) (urls : List String) (wantsHealthCheck : Bool)
  | weighted (children : List (WRRService × Handler)) (wantsHealthCheck : Bool)
  | highestRandomWeight (children : List (HRWService × Handler)) (wantsHealthCheck : Bool)
  | mirroring (handler : Handler) (mirrors : List (Handler × Int)) (mirrorBody : Bool)
      (maxBodySize : Int) (wantsHealthCheck : Bool)
  | failover (handler fallback : Handler) (statusCode : HTTPCodeRanges)
      (maxRequestBodyBytes : Int) (wantsHealthCheck : Bool)
  | status (code : Int)
  | grpcStatus (status : GRPCStatus)
  | headers (headers : List (String × String)) (handler : Handler)
  | middleware (type : String) (handler : Handler)

/-- The name of the Go type of a handler. -/
def Handler.typeName : Handler → String
  | .servers .p2c _ _ => "*p2c.Balancer"
  | .servers .hrw _ _ => "*hrw.Balancer"
  | .servers .leastTime _ _ => "*leasttime.Balancer"
  | .servers _ _ _ => "*wrr.Balancer"
  | .weighted _ _ => "*wrr.Balancer"
  | .highestRandomWeight _ _ => "*hrw.Balancer"
  | .mirroring _ _ _ _ _ => "*mirror.Mirroring"
  | .failover _ _ _ _ _ => "*failover.Failover"
  | .status _ => "http.HandlerFunc"
  | .grpcStatus _ => "http.HandlerFunc"
  | .headers _ _ => "http.HandlerFunc"
  | .middleware type _ => type

/-- `RegisterStatusUpdater` of the balancer that the errors call `kind`. -/
def registerIf (wantsHealthCheck : Bool) (kind : String) : Except String Unit :=
  if wantsHealthCheck then .ok ()
  else .error ("healthCheck not enabled in config for this " ++ kind ++ " service")

/-- `RegisterStatusUpdater`, for the handlers that have it. -/
def Handler.registerStatusUpdater : Handler → Option (Except String Unit)
  | .servers .p2c _ wants => some (registerIf wants "P2C")
  | .servers .hrw _ wants => some (registerIf wants "HRW")
  | .servers .leastTime _ wants => some (registerIf wants "LeastTime")
  | .servers _ _ wants => some (registerIf wants "WRR")
  | .weighted _ wants => some (registerIf wants "WRR")
  | .highestRandomWeight _ wants => some (registerIf wants "HRW")
  | .mirroring handler _ _ _ wants =>
    some do
      registerIf wants "mirroring"
      -- a mirroring passes the hook on to its main service
      match handler.registerStatusUpdater with
      | none =>
        .error ("service of mirroring " ++ handler.typeName ++ " not a healthcheck.StatusUpdater")
      | some (.error err) => .error ("cannot register service of mirroring as updater: " ++ err)
      | some (.ok ()) => .ok ()
  | .failover _ _ _ _ wants => some (registerIf wants "failover")
  | .status _ => none
  | .grpcStatus _ => none
  | .headers _ _ => none
  | .middleware _ _ => none

/-- The error of a child that has no `RegisterStatusUpdater`. -/
def notUpdater (child parent : String) (handler : Handler) : String :=
  "child service " ++ child ++ " of " ++ parent ++ " not a healthcheck.StatusUpdater (" ++
    handler.typeName ++ ")"

/-- The error of a child whose `RegisterStatusUpdater` fails. -/
def cannotRegister (child parent err : String) : String :=
  "cannot register " ++ child ++ " as updater for " ++ parent ++ ": " ++ err

/-- Make a parent with a health check an updater of its child. -/
def register (healthCheck : Bool) (child parent : String) (handler : Handler) :
    Except String Unit :=
  if healthCheck then
    match handler.registerStatusUpdater with
    | none => .error (notUpdater child parent handler)
    | some (.error err) => .error (cannotRegister child parent err)
    | some (.ok ()) => .ok ()
  else .ok ()

/-! ## Error statuses -/

/-- The value of a sequence of digits. -/
def digitsValue (digits : List Char) : Nat :=
  digits.foldl (fun n c => 10 * n + (c.toNat - '0'.toNat)) 0

def atoi (s : String) : Except String Int :=
  let (negative, digits) :=
    match s.toList with
    | '-' :: digits => (true, digits)
    | '+' :: digits => (false, digits)
    | digits => (false, digits)
  let value : Int := if negative then -digitsValue digits else digitsValue digits
  if digits = [] ∨ ¬ digits.all Char.isDigit then
    .error ("strconv.Atoi: parsing " ++ quote s ++ ": invalid syntax")
  else if value < -2 ^ 63 ∨ 2 ^ 63 ≤ value then
    .error ("strconv.Atoi: parsing " ++ quote s ++ ": value out of range")
  else .ok value

/-- A code or a range of codes. -/
def parseBlock (block : String) : Except String (Int × Int) := do
  let codes := (block.toList.splitOn '-').map String.ofList
  let low := codes.headD ""
  let lowCode ← atoi low
  let highCode ← atoi (codes.getD 1 low)
  .ok (lowCode, highCode)

def newHTTPCodeRanges (strBlocks : List String) : Except String HTTPCodeRanges :=
  strBlocks.mapM parseBlock

/-- At least one error status is declared. -/
def FailoverService.IsErrorDefined (config : FailoverService) : Prop :=
  ∃ errors ∈ config.errors, errors.status ≠ []

instance (config : FailoverService) : Decidable config.IsErrorDefined := by
  unfold FailoverService.IsErrorDefined
  infer_instance

/-- `failover.New`: the error statuses and the body size of the new failover. -/
def newFailover (config : FailoverService) : Except String (HTTPCodeRanges × Int) :=
  match config.errors with
  | none => .ok ([], 0)
  | some errors =>
    match newHTTPCodeRanges errors.status with
    | .error err => .error ("creating HTTP code ranges: " ++ err)
    | .ok statusCode => .ok (statusCode, errors.maxRequestBodyBytes.getD (-1))

/-! ## The code -/

/-- A manager: what it has built, the configurations, the services it has a
    health checker for, and how often its random source was used. -/
structure Manager where
  services : Finmap fun _ : String => Handler
  configs : Finmap fun _ : String => Info HTTPService
  healthCheckers : Finset String
  draws : Nat

/-- What a builder is given: its random source, the outcomes of building the
    proxy of a server and of getting a round tripper, the other builders of
    services and the builder of middleware chains. -/
structure Env where
  rand : Rand
  buildProxy : (serversTransport url : String) → Except String Unit
  getRoundTripper : (serversTransport : String) → Except String Unit
  serviceBuilders : List (Ctx → String → Except String (Option Handler))
  middlewareChainBuilder : Option (List String → Handler → Except String Handler)

/-- `AddError` on a service. -/
def Manager.addError (m : Manager) (name err : String) : Manager :=
  match m.configs.lookup name with
  | none => m
  | some info => { m with configs := m.configs.insert name (info.addError err true) }

/-- Fail with an error that is added to the service. -/
def fail {α : Type} (name err : String) : Prog Manager String α :=
  onError (throw err) fun err m => m.addError name err

/-- `shuffle` with the random source of the manager. -/
def shuffle {α : Type} (env : Env) (values : List α) : Prog Manager String (List α) := do
  let m ← get
  modify fun m => { m with draws := m.draws + 1 }
  pure (env.rand.shuffle m.draws values)

/-- Keep a handler for the next call. -/
def save (serviceName : String) (handler : Handler) : Prog Manager String Handler := do
  modify fun m => { m with services := m.services.insert serviceName handler }
  pure handler

variable (env : Env)

def getLoadBalancerServiceHandler (ctx : Ctx) (serviceName : String)
    (service : ServersLoadBalancer) : Prog Manager String Handler :=
  match service.strategy with
  | .unsupported name => throw ("unsupported load-balancer strategy " ++ quote name)
  | _ => do
    let serversTransport :=
      if service.serversTransport = "" then "" else getQualifiedName ctx service.serversTransport
    let urls ← shuffle env service.servers
    let _ ← forEach (fun url => ofResult (env.buildProxy serversTransport url)) urls
    ofResult (if service.healthCheck then env.getRoundTripper serversTransport else .ok ())
    modify fun m => { m with
      healthCheckers :=
        if service.healthCheck then insert serviceName m.healthCheckers else m.healthCheckers }
    pure (.servers service.strategy urls service.healthCheck)

def getServiceHandler (build : String → Prog Manager String Handler) (service : WRRService) :
    Prog Manager String Handler :=
  match service.status, service.grpcStatus with
  | some code, _ => pure (.status code)
  | none, some status => pure (.grpcStatus status)
  | none, none => do
    let svcHandler ← mapError (build service.name) fun err =>
      "building HTTP service " ++ quote service.name ++ ": " ++ err
    match service.headers with
    | some headers => pure (.headers headers svcHandler)
    | none => pure svcHandler

/-- The loop of weighted and highest random weight services: build the children,
    and become an updater of each when health checks are wanted. -/
def buildChildren {α : Type} (build : α → Prog Manager String Handler) (nameOf : α → String)
    (serviceName : String) (healthCheck : Bool) (services : List α) :
    Prog Manager String (List (α × Handler)) :=
  services |> forEach fun service => do
    let serviceHandler ← build service
    ofResult (register healthCheck (nameOf service) serviceName serviceHandler)
    pure (service, serviceHandler)

open WRRService

def getWRRServiceHandler (build : String → Prog Manager String Handler)
    (serviceName : String) (config : WeightedRoundRobin) : Prog Manager String Handler := do
  let services ← shuffle env config.services
  let children ← buildChildren (getServiceHandler build) name serviceName
    config.healthCheck services
  pure (.weighted children config.healthCheck)

def getHRWServiceHandler (build : String → Prog Manager String Handler)
    (serviceName : String) (config : HighestRandomWeight) : Prog Manager String Handler := do
  let services ← shuffle env config.services
  let children ← buildChildren (fun service => build service.name) HRWService.name serviceName
    config.healthCheck services
  pure (.highestRandomWeight children config.healthCheck)

def addMirror (handler : Handler) (percent : Int) : Except String (Handler × Int) :=
  if percent < 0 ∨ 100 < percent then .error "percent must be between 0 and 100"
  else .ok (handler, percent)

def getMirrorServiceHandler (build : String → Prog Manager String Handler) (config : Mirroring) :
    Prog Manager String Handler := do
  let serviceHandler ← build config.service
  let mirrors ← config.mirrors |> forEach fun (mirror : MirrorService) => do
    let mirrorHandler ← build mirror.name
    ofResult (addMirror mirrorHandler mirror.percent)
  pure (.mirroring serviceHandler mirrors (config.mirrorBody.getD true)
    (config.maxBodySize.getD (-1)) config.healthCheck)

def getFailoverServiceHandler (build : String → Prog Manager String Handler)
    (serviceName : String) (config : FailoverService) : Prog Manager String Handler := do
  let serviceHandler ← build config.service
  let updater := serviceHandler.registerStatusUpdater
  ofResult (
    if updater.isNone ∧ ¬ config.IsErrorDefined then
      .error (notUpdater config.service serviceName serviceHandler)
    else .ok ())
  let (statusCode, maxRequestBodyBytes) ← mapError (ofResult (newFailover config)) fun err =>
    "error creating failover service " ++ serviceName ++ ": " ++ err
  -- with error statuses the failover does without the health of its main service
  ofResult (
    match updater with
    | some (.error err) =>
      if config.IsErrorDefined then .ok ()
      else .error (cannotRegister config.service serviceName err)
    | _ => .ok ())
  let fallbackHandler ← build config.fallback
  ofResult (register config.healthCheck config.fallback serviceName fallbackHandler)
  pure (.failover serviceHandler fallbackHandler statusCode maxRequestBodyBytes config.healthCheck)

/-- The handler of a service of some type, its middlewares apart. -/
def getHandler (build : String → Prog Manager String Handler) (ctx : Ctx)
    (serviceName : String) (conf : HTTPService) : Prog Manager String Handler :=
  match conf.loadBalancer, conf.weighted, conf.highestRandomWeight, conf.mirroring,
    conf.failover with
  | some config, _, _, _, _ => getLoadBalancerServiceHandler env ctx serviceName config
  | none, some config, _, _, _ => getWRRServiceHandler env build serviceName config
  | none, none, some config, _, _ => getHRWServiceHandler env build serviceName config
  | none, none, none, some config, _ => getMirrorServiceHandler build config
  | none, none, none, none, some config => getFailoverServiceHandler build serviceName config
  | none, none, none, none, none =>
    throw ("the service " ++ quote serviceName ++ " does not have any type defined")

/-- The middlewares of a service, around its handler. -/
def chain (env : Env) (serviceName : String) (middlewares : List String) (lb : Handler) :
    Prog Manager String Handler :=
  if middlewares = [] then pure lb
  else
    match env.middlewareChainBuilder with
    | none => throw "chain builder not defined"
    | some build =>
      onError (ofResult (build middlewares lb)) fun err m => m.addError serviceName err

/-- The error of a service of several types. -/
def multiTypes : String :=
  "cannot create service: multi-types service not supported, consider declaring two different pieces of service instead"

/-- Build a service from its configuration. -/
def buildConfigured (build : Ctx → String → Prog Manager String Handler) (ctx : Ctx)
    (serviceName : String) (info : Info HTTPService) : Prog Manager String Handler :=
  if info.status = .disabled then throw (", ".intercalate info.err)
  else if 1 < info.conf.types then fail serviceName multiTypes
  else
    match checkRecursion ctx "service" serviceName with
    | .error errRecursion => fail serviceName errRecursion
    | .ok ctx => do
      let lb ← onError (getHandler env (build ctx) ctx serviceName info.conf)
        fun err m => m.addError serviceName err
      let lb ← chain env serviceName info.conf.middlewares lb
      save serviceName lb

/-- The first handler or error of the other builders. -/
def firstBuilt (ctx : Ctx) (serviceName : String) :
    List (Ctx → String → Except String (Option Handler)) → Except String (Option Handler)
  | [] => .ok none
  | builder :: builders => do
    match ← builder ctx serviceName with
    | some handler => .ok (some handler)
    | none => firstBuilt ctx serviceName builders

/-- `BuildHTTP`, with a bound on the depth of its calls. -/
def buildHTTP (env : Env) : Nat → Ctx → String → Prog Manager String Handler
  | 0, _, _ => stuck
  | depth + 1, rootCtx, name => do
    let serviceName := getQualifiedName rootCtx name
    let ctx := addInContext rootCtx serviceName
    let m ← get
    match m.services.lookup serviceName with
    | some handler => pure handler
    | none =>
      match ← ofResult (firstBuilt rootCtx serviceName env.serviceBuilders) with
      | some handler => save serviceName handler
      | none =>
        match m.configs.lookup serviceName with
        | none => throw ("the service " ++ quote serviceName ++ " does not exist")
        | some info => buildConfigured env (buildHTTP env depth) ctx serviceName info

def newManager (configs : Finmap fun _ : String => Info HTTPService) : Manager where
  services := ∅
  configs
  healthCheckers := ∅
  draws := 0

/-- Any number of calls of `BuildHTTP` on one manager, each to its end. -/
def builds (configs : Finmap fun _ : String => Info HTTPService) :
    System Manager (Option String × String) where
  init := fun m => m = newManager configs
  step := fun m (provider, name) m' =>
    ∃ depth r, buildHTTP env depth (rootCtx provider) name m = some (r, m')

/-! ## The reference graph -/

/-- The configuration of a service. -/
def Manager.conf (m : Manager) (name : String) : Option HTTPService :=
  (m.configs.lookup name).map Info.conf

/-- A child of a weighted service that refers to a service. -/
def WRRService.isReference (service : WRRService) : Bool :=
  service.status.isNone && service.grpcStatus.isNone

/-- The names that a service refers to others by. -/
def HTTPService.references (service : HTTPService) : List String :=
  (service.weighted.toList.flatMap fun config =>
    (config.services.filter isReference).map name) ++
  (service.highestRandomWeight.toList.flatMap fun config => config.services.map HRWService.name) ++
  (service.mirroring.toList.flatMap fun config =>
    config.service :: config.mirrors.map MirrorService.name) ++
  service.failover.toList.flatMap fun config => [config.service, config.fallback]

/-- The services that a service refers to. -/
def refs (m : Manager) (name : String) : List String :=
  match m.conf name with
  | none => []
  | some service => service.references.map (resolve name)

/-- A service has one type, and error statuses if it is a failover. -/
def HTTPService.Whole (service : HTTPService) : Prop :=
  service.types = 1 ∧ ∀ config, service.failover = some config → config.IsErrorDefined

/-- A service that is missing or not whole. -/
def Broken (m : Manager) (name : String) : Prop :=
  ∀ service, m.conf name = some service → ¬ service.Whole

/-- The services that `buildHTTP` builds. -/
def Buildable (m : Manager) : String → Prop :=
  Sound (refs m) (Broken m)

/-- A load balancer of servers that is built without errors. -/
structure ServersLoadBalancer.Builds (service : ServersLoadBalancer) : Prop where
  strategy : ∀ name, service.strategy ≠ .unsupported name
  proxies : ∀ serversTransport, ∀ url ∈ service.servers,
    env.buildProxy serversTransport url = .ok ()

/-- A configuration without health checks and middlewares, with valid mirror
    percentages and valid error statuses, whose servers are built without errors. -/
structure HTTPService.Plain (service : HTTPService) : Prop where
  middlewares : service.middlewares = []
  loadBalancer : ∀ config, service.loadBalancer = some config →
    config.healthCheck = false ∧ config.Builds env
  weighted : ∀ config, service.weighted = some config → config.healthCheck = false
  highestRandomWeight : ∀ config, service.highestRandomWeight = some config →
    config.healthCheck = false
  mirroring : ∀ config, service.mirroring = some config →
    config.healthCheck = false ∧
      ∀ mirror ∈ config.mirrors, 0 ≤ mirror.percent ∧ mirror.percent ≤ 100
  failover : ∀ config, service.failover = some config →
    config.healthCheck = false ∧
      ∀ errors, config.errors = some errors → ∃ ranges, newHTTPCodeRanges errors.status = .ok ranges

variable {env : Env} {m m₀ : Manager} {name : String} {service : HTTPService}

open Manager

theorem conf_addError (m : Manager) (name err : String) : (m.addError name err).conf = m.conf := by
  unfold addError
  split
  · rfl
  · next info hinfo => exact funext (map_conf_addError hinfo err true)

theorem conf_eq_none_iff : m.conf name = none ↔ name ∉ m.configs.keys := by
  unfold conf
  rw [Option.map_eq_none_iff, lookup_eq_none, mem_keys]

theorem refs_finite (m : Manager) : { name | refs m name ≠ [] }.Finite :=
  finite_of_lookup m.configs fun name hnone => by simp [refs, conf, hnone]

theorem refers_iff (hconf : m.conf name = some service) (c : String) :
    Refers (refs m) name c ↔ ∃ n ∈ service.references, resolve name n = c := by
  simp [Refers, refs, hconf]

theorem buildable_iff (hconf : m.conf name = some service) :
    Buildable m name ↔
      service.Whole ∧ ∀ n ∈ service.references, Buildable m (resolve name n) := by
  constructor
  · intro h
    refine ⟨?_, fun n hn => h.of_refers ((refers_iff hconf _).mpr ⟨n, hn, rfl⟩)⟩
    by_contra hwhole
    apply h.not_broken
    intro svc' hconf'
    rw [hconf] at hconf'
    cases hconf'
    exact hwhole
  · intro ⟨hwhole, hall⟩
    refine .intro (fun hbroken => hbroken service hconf hwhole) fun c hc => ?_
    obtain ⟨n, hn, rfl⟩ := (refers_iff hconf c).mp hc
    exact hall n hn

/-! ## What calls keep -/

/-- A handler that cannot be watched: its `RegisterStatusUpdater`, if it has one,
    fails. -/
def Silent (handler : Handler) : Prop :=
  handler.registerStatusUpdater ≠ some (.ok ())

/-- What calls of the builder keep: the configuration, that what was built can be
    built, and that what was disabled cannot. -/
structure Inv (m₀ m : Manager) : Prop where
  conf : m.conf = m₀.conf
  built : ∀ name handler, m.services.lookup name = some handler →
    Buildable m₀ name ∧ Silent handler
  disabled : ∀ name info, m.configs.lookup name = some info → info.status = .disabled →
    ¬ Buildable m₀ name

theorem Inv.addError (h : Inv m₀ m) (hname : ¬ Buildable m₀ name) (err : String) :
    Inv m₀ (m.addError name err) := by
  refine ⟨(conf_addError m name err).trans h.conf, ?_, ?_⟩
  · intro n handler hn
    apply h.built n handler
    rw [← hn]
    unfold Manager.addError
    split <;> rfl
  · intro n info hn hdis
    by_cases hne : n = name
    · rw [hne]
      exact hname
    · refine h.disabled n info ?_ hdis
      rw [← hn]
      unfold Manager.addError
      split
      · rfl
      · exact (lookup_insert_of_ne _ hne).symm

theorem Inv.save (h : Inv m₀ m) {handler : Handler} (hname : Buildable m₀ name)
    (hhandler : Silent handler) : Inv m₀ { m with services := m.services.insert name handler } := by
  refine ⟨h.conf, ?_, h.disabled⟩
  intro n handler' hn
  by_cases hne : n = name
  · subst hne
    rw [lookup_insert] at hn
    cases hn
    exact ⟨hname, hhandler⟩
  · rw [lookup_insert_of_ne _ hne] at hn
    exact h.built n handler' hn

variable {α : Type}

theorem settles_fail {post : α → Prop} (hname : ¬ Buildable m₀ name) (err : String) :
    Settles (Inv m₀) (fail name err : Prog Manager String α) False post :=
  settles_throw.onError fun _ err _ hm => hm.addError hname err

theorem settles_shuffle (values : List α) :
    Settles (Inv m₀) (shuffle env values) True fun l => ∀ a, a ∈ l ↔ a ∈ values := by
  refine settles_get fun m _ => ?_
  apply Settles.andThen
  · exact settles_modify fun m hm => ⟨hm.conf, hm.built, hm.disabled⟩
  · intro _ _
    exact settles_pure (by simp)

/-! ## One service -/

open HTTPService

section
variable {b : String → Prog Manager String Handler} {good : String → Prop} {serviceName : String}

open Handler

theorem getLoadBalancerServiceHandler_settles {ctx : Ctx} {cfg : ServersLoadBalancer}
    (hno : cfg.healthCheck = false) (hbuilds : cfg.Builds env) :
    Settles (Inv m₀) (getLoadBalancerServiceHandler env ctx serviceName cfg) True Silent := by
  unfold getLoadBalancerServiceHandler
  split
  · next name hname => exact absurd hname (hbuilds.strategy name)
  · refine (settles_shuffle cfg.servers).andThen fun urls hurls => ?_
    have hproxy : ∀ transport, ∀ url ∈ urls,
        Settles (Inv m₀) (ofResult (env.buildProxy transport url)) True fun _ => True :=
      fun transport url hurl =>
        settles_ofResult (hbuilds.proxies transport url ((hurls url).mp hurl)) trivial
    apply Settles.andThen
    · exact (settles_forEach (hproxy _)).congr (by simp) fun _ h => h
    · intro _ _
      rw [hno]
      refine (settles_ofResult rfl trivial).andThen fun _ (_ : True) => ?_
      apply Settles.andThen
      · exact settles_modify fun m hm => ⟨hm.conf, hm.built, hm.disabled⟩
      · intro _ _
        refine settles_pure ?_
        unfold Silent
        cases cfg.strategy <;> simp [registerStatusUpdater, registerIf]

theorem getServiceHandler_settles {svc : WRRService}
    (hb : svc.isReference → Settles (Inv m₀) (b svc.name) (good svc.name) Silent) :
    Settles (Inv m₀) (getServiceHandler b svc) (svc.isReference → good svc.name) fun _ => True := by
  unfold getServiceHandler
  unfold isReference at hb ⊢
  cases hstat : svc.status with
  | some code => exact (settles_pure trivial).congr (by simp) fun _ h => h
  | none =>
    cases hgrpc : svc.grpcStatus with
    | some status => exact (settles_pure trivial).congr (by simp) fun _ h => h
    | none =>
      have hchild := hb (by simp [hstat, hgrpc])
      refine (hchild.mapError.followed fun svcHandler _ _ => ?_).congr (by simp) fun _ h => h
      cases svc.headers with
      | some headers | none => exact settles_pure trivial

/-- Children are built when each of them is: without health checks nothing is
    registered. -/
theorem buildChildren_settles {build : α → Prog Manager String Handler}
    (nameOf : α → String) (svc : String) {services : List α} {goodOf : α → Prop}
    (hb : ∀ service ∈ services,
      Settles (Inv m₀) (build service) (goodOf service) fun _ => True) :
    Settles (Inv m₀) (buildChildren build nameOf svc false services)
      (∀ service ∈ services, goodOf service) fun _ => True := by
  refine settles_forEach fun service hsvc => ?_
  exact (hb service hsvc).followed fun handler _ _ =>
    (settles_ofResult rfl trivial).andThen fun _ (_ : True) => settles_pure trivial

theorem getWRRServiceHandler_settles {cfg : WeightedRoundRobin} (hno : cfg.healthCheck = false)
    (hb : ∀ service ∈ cfg.services, service.isReference →
      Settles (Inv m₀) (b service.name) (good service.name) Silent) :
    Settles (Inv m₀) (getWRRServiceHandler env b serviceName cfg)
      (∀ service ∈ cfg.services, service.isReference → good service.name) Silent := by
  unfold getWRRServiceHandler
  rw [hno]
  refine (settles_shuffle cfg.services).andThen fun services hmem => ?_
  have hkids := buildChildren_settles name serviceName
    fun service hsvc => getServiceHandler_settles (hb service ((hmem service).mp hsvc))
  refine (hkids.followed fun kids _ _ => settles_pure ?_).congr (by simp [hmem])
    fun _ h => h
  simp [Silent, registerStatusUpdater, registerIf]

theorem getHRWServiceHandler_settles {cfg : HighestRandomWeight} (hno : cfg.healthCheck = false)
    (hb : ∀ service ∈ cfg.services,
      Settles (Inv m₀) (b service.name) (good service.name) Silent) :
    Settles (Inv m₀) (getHRWServiceHandler env b serviceName cfg)
      (∀ service ∈ cfg.services, good service.name) Silent := by
  unfold getHRWServiceHandler
  rw [hno]
  refine (settles_shuffle cfg.services).andThen fun services hmem => ?_
  have hkids := buildChildren_settles HRWService.name serviceName
    fun service hsvc => (hb service ((hmem service).mp hsvc)).weaken
  refine (hkids.followed fun kids _ _ => settles_pure ?_).congr (by simp [hmem])
    fun _ h => h
  simp [Silent, registerStatusUpdater, registerIf]

theorem getMirrorServiceHandler_settles {cfg : Mirroring} (hno : cfg.healthCheck = false)
    (hpct : ∀ mirror ∈ cfg.mirrors, 0 ≤ mirror.percent ∧ mirror.percent ≤ 100)
    (hsvc : Settles (Inv m₀) (b cfg.service) (good cfg.service) Silent)
    (hmirrors : ∀ mirror ∈ cfg.mirrors,
      Settles (Inv m₀) (b mirror.name) (good mirror.name) Silent) :
    Settles (Inv m₀) (getMirrorServiceHandler b cfg)
      (good cfg.service ∧ ∀ mirror ∈ cfg.mirrors, good mirror.name) Silent := by
  unfold getMirrorServiceHandler
  rw [hno]
  refine hsvc.bind fun serviceHandler _ _ => ?_
  apply Settles.followed
  · refine settles_forEach fun mirror hmirror => ?_
    refine (hmirrors mirror hmirror).followed fun handler _ _ => ?_
    have hval : ¬ (mirror.percent < 0 ∨ 100 < mirror.percent) := by
      have := hpct mirror hmirror
      omega
    have hadd : addMirror handler mirror.percent = .ok (handler, mirror.percent) := by
      simp [addMirror, hval]
    exact settles_ofResult hadd trivial
  · intro mirrors _ _
    refine settles_pure ?_
    simp [Silent, registerStatusUpdater, registerIf, bind, Except.bind]

theorem exists_newFailover {cfg : FailoverService}
    (hval : ∀ errors, cfg.errors = some errors →
      ∃ ranges, newHTTPCodeRanges errors.status = .ok ranges) :
    ∃ out, newFailover cfg = .ok out := by
  unfold newFailover
  cases herrors : cfg.errors with
  | none => exact ⟨_, rfl⟩
  | some errors =>
    obtain ⟨ranges, hranges⟩ := hval errors herrors
    simp [hranges]

/-- A failover is built when its two services are and it has error statuses:
    without them it has to watch its main service, which is silent. -/
theorem getFailoverServiceHandler_settles {cfg : FailoverService} (hno : cfg.healthCheck = false)
    (hval : ∀ errors, cfg.errors = some errors →
      ∃ ranges, newHTTPCodeRanges errors.status = .ok ranges)
    (hsvc : Settles (Inv m₀) (b cfg.service) (good cfg.service) Silent)
    (hfallback : Settles (Inv m₀) (b cfg.fallback) (good cfg.fallback) Silent) :
    Settles (Inv m₀) (getFailoverServiceHandler b serviceName cfg)
      (good cfg.service ∧ cfg.IsErrorDefined ∧ good cfg.fallback) Silent := by
  obtain ⟨⟨code, maxRequestBodyBytes⟩, hnew⟩ := exists_newFailover hval
  unfold getFailoverServiceHandler
  rw [hnew, hno]
  refine hsvc.bind fun serviceHandler _ hsilent => ?_
  have hnewSettles : Settles (Inv m₀) (ofResult (.ok (code, maxRequestBodyBytes)) :
      Prog Manager String (HTTPCodeRanges × Int)) True fun _ => True :=
    settles_ofResult rfl trivial
  have hok : ∀ r, r = .ok () →
      Settles (Inv m₀) (ofResult r : Prog Manager String Unit) True fun _ => True :=
    fun r hr => settles_ofResult hr trivial
  by_cases hdefined : cfg.IsErrorDefined
  · -- an error of the registration is ignored
    have hgood : (cfg.IsErrorDefined ∧ good cfg.fallback) = good cfg.fallback := by
      simp [hdefined]
    rw [hgood]
    apply (hok _ (by simp [hdefined])).andThen
    intro _ _
    apply hnewSettles.mapError.andThen
    intro out _
    apply (hok _ (by split <;> simp [hdefined])).andThen
    intro _ _
    apply hfallback.followed
    intro fallbackHandler _ _
    apply (hok _ rfl).andThen
    intro _ _
    exact settles_pure (by simp [Silent, registerStatusUpdater, registerIf])
  · -- the registration fails, one way or the other
    have hgood : (cfg.IsErrorDefined ∧ good cfg.fallback) = False := by
      simp [hdefined]
    rw [hgood]
    cases hupdater : serviceHandler.registerStatusUpdater with
    | none =>
      apply Settles.failed
      exact settles_ofResult_error (if_pos ⟨rfl, hdefined⟩)
    | some r =>
      apply (hok _ (by simp)).andThen
      intro _ _
      apply hnewSettles.mapError.andThen
      intro out _
      apply Settles.failed
      cases r with
      | ok => exact absurd hupdater hsilent
      | error err => exact settles_ofResult_error (if_neg hdefined)

/-- A service of at most one type. -/
theorem HTTPService.cases_of_types (h : service.types ≤ 1) :
    service = { blank with middlewares := service.middlewares } ∨
    (∃ config, service = { blank with
      middlewares := service.middlewares, loadBalancer := some config }) ∨
    (∃ config, service = { blank with
      middlewares := service.middlewares, highestRandomWeight := some config }) ∨
    (∃ config, service = { blank with
      middlewares := service.middlewares, weighted := some config }) ∨
    (∃ config, service = { blank with
      middlewares := service.middlewares, mirroring := some config }) ∨
    ∃ config, service = { blank with
      middlewares := service.middlewares, failover := some config } := by
  obtain ⟨middlewares, lb, hrw, w, mirroring, failover⟩ := service
  unfold types at h
  unfold blank
  -- of the 32 combinations, all but these six have two types
  cases lb <;> cases hrw <;> cases w <;> cases mirroring <;> cases failover <;> simp at h ⊢

/-- **One service**: it is built when it is whole and everything it refers to is
    built. -/
theorem getHandler_settles (ctx : Ctx) (svc : String) (hplain : service.Plain env)
    (htypes : service.types ≤ 1)
    (hb : ∀ name ∈ service.references, Settles (Inv m₀) (b name) (good name) Silent) :
    Settles (Inv m₀) (getHandler env b ctx svc service)
      (service.Whole ∧ ∀ name ∈ service.references, good name) Silent := by
  have hcases := cases_of_types htypes
  generalize service.middlewares = middlewares at hcases
  obtain rfl | ⟨cfg, rfl⟩ | ⟨cfg, rfl⟩ | ⟨cfg, rfl⟩ | ⟨cfg, rfl⟩ | ⟨cfg, rfl⟩ := hcases
  · refine Settles.congr settles_throw ?_ fun _ h => h
    simp [HTTPService.Whole, types, blank]
  · obtain ⟨hno, hbuilds⟩ := hplain.loadBalancer cfg rfl
    refine (getLoadBalancerServiceHandler_settles hno hbuilds).congr ?_ fun _ h => h
    simp [HTTPService.Whole, types, blank, references]
  · refine (getHRWServiceHandler_settles (hplain.highestRandomWeight cfg rfl)
      fun service hsvc => hb service.name ?_).congr ?_ fun _ h => h
    · simpa [references, blank] using ⟨service, hsvc, rfl⟩
    · simp [HTTPService.Whole, types, blank, references]
  · refine (getWRRServiceHandler_settles (hplain.weighted cfg rfl)
      fun service hsvc href => hb service.name ?_).congr ?_ fun _ h => h
    · simpa [references, blank] using ⟨service, ⟨hsvc, href⟩, rfl⟩
    · simp [HTTPService.Whole, types, blank, references, -List.mem_map, List.forall_mem_map]
  · obtain ⟨hno, hpct⟩ := hplain.mirroring cfg rfl
    refine (getMirrorServiceHandler_settles hno hpct (hb cfg.service ?_)
      fun mirror hmirror => hb mirror.name ?_).congr ?_ fun _ h => h
    · simp [references, blank]
    · simpa [references, blank] using .inr ⟨mirror, hmirror, rfl⟩
    · simp [HTTPService.Whole, types, blank, references]
  · obtain ⟨hno, hval⟩ := hplain.failover cfg rfl
    refine (getFailoverServiceHandler_settles hno hval (hb cfg.service ?_)
      (hb cfg.fallback ?_)).congr ?_ fun _ h => h
    · simp [references, blank]
    · simp [references, blank]
    · simp [HTTPService.Whole, types, blank, references, and_left_comm]

end

/-! ## More depth -/

section
variable {b b' : String → Prog Manager String Handler} {serviceName : String}

theorem buildChildren_le {build build' : α → Prog Manager String Handler}
    (h : ∀ service, Le (build service) (build' service)) (nameOf : α → String)
    (svc : String) (check : Bool) (services : List α) :
    Le (buildChildren build nameOf svc check services)
      (buildChildren build' nameOf svc check services) :=
  .forEach (fun service => (h service).bind fun _ => .refl _) services

theorem getServiceHandler_le (h : ∀ name, Le (b name) (b' name)) (svc : WRRService) :
    Le (getServiceHandler b svc) (getServiceHandler b' svc) := by
  unfold getServiceHandler
  split
  · exact .refl _
  · exact .refl _
  · exact ((h svc.name).mapError _).bind fun _ => .refl _

theorem getHandler_le (h : ∀ name, Le (b name) (b' name)) (ctx : Ctx) (conf : HTTPService) :
    Le (getHandler env b ctx serviceName conf) (getHandler env b' ctx serviceName conf) := by
  unfold getHandler
  split
  · exact .refl _
  · exact (Le.refl _).bind fun _ => (buildChildren_le (getServiceHandler_le h) _ _ _ _).bind
      fun _ => .refl _
  · exact (Le.refl _).bind fun _ => (buildChildren_le (fun _ => h _) _ _ _ _).bind fun _ => .refl _
  · exact (h _).bind fun _ => (Le.forEach (fun _ => (h _).bind fun _ => .refl _) _).bind
      fun _ => .refl _
  · exact (h _).bind fun _ => (Le.refl _).bind fun _ => (Le.refl _).bind fun _ =>
      (Le.refl _).bind fun _ => (h _).bind fun _ => .refl _
  · exact .refl _

theorem buildConfigured_le {build build' : Ctx → String → Prog Manager String Handler}
    (h : ∀ ctx name, Le (build ctx name) (build' ctx name)) (ctx : Ctx) (info : Info HTTPService) :
    Le (buildConfigured env build ctx serviceName info)
      (buildConfigured env build' ctx serviceName info) := by
  unfold buildConfigured
  split
  · exact .refl _
  · split
    · exact .refl _
    · split
      · exact .refl _
      · exact ((getHandler_le (h _) _ _).onError _).bind fun _ => .refl _

theorem buildHTTP_le_succ (depth : Nat) (ctx : Ctx) (name : String) :
    Le (buildHTTP env depth ctx name) (buildHTTP env (depth + 1) ctx name) := by
  induction depth generalizing ctx name with
  | zero => exact stuck_le _
  | succ depth ih =>
    refine (Le.refl _).bind fun m => ?_
    split
    · exact .refl _
    · refine (Le.refl _).bind fun built => ?_
      split
      · exact .refl _
      · split
        · exact .refl _
        · exact buildConfigured_le ih _ _

/-- A call that comes to its end within some depth has that outcome at every
    larger depth. -/
theorem buildHTTP_le {depth depth' : Nat} (hle : depth ≤ depth') (ctx : Ctx) (name : String) :
    Le (buildHTTP env depth ctx name) (buildHTTP env depth' ctx name) := by
  induction hle with
  | refl => exact .refl _
  | step _ ih => exact fun m out h => buildHTTP_le_succ _ ctx name m out (ih m out h)

end

/-! ## Services under construction -/

/-- The stack of a context in which the services of `path` are under
    construction. -/
def stackOf (path : List String) : List String :=
  path.map fun name => "service" ++ ":" ++ name

/-- Services under construction when `q` is asked for: each depends on `q`. -/
structure Path (m₀ : Manager) (path : List String) (q : String) : Prop where
  nodup : path.Nodup
  configured : ∀ n ∈ path, n ∈ m₀.configs.keys
  dependsOn : ∀ n ∈ path, DependsOn (refs m₀) n q

section
variable {path : List String} {q c : String} {ctx : Ctx}

theorem mem_stackOf_iff : "service" ++ ":" ++ q ∈ stackOf path ↔ q ∈ path := by
  unfold stackOf
  rw [List.mem_map]
  constructor
  · intro ⟨n, hn, heq⟩
    rwa [← (String.append_right_inj _).mp heq]
  · intro hq
    exact ⟨q, hq, rfl⟩

theorem Path.nil (m₀ : Manager) (q : String) : Path m₀ [] q where
  nodup := .nil
  configured := by simp
  dependsOn := by simp

theorem Path.snoc (h : Path m₀ path q) (hq : q ∉ path) (hconf : q ∈ m₀.configs.keys)
    (hc : Refers (refs m₀) q c) : Path m₀ (path ++ [q]) c where
  nodup := by simpa [List.nodup_append] using ⟨h.nodup, fun n hn heq => hq (heq ▸ hn)⟩
  configured := by simpa [or_imp, forall_and] using ⟨h.configured, hconf⟩
  dependsOn := by
    intro n hn
    rcases List.mem_append.mp hn with hn | hn
    · exact .tail (h.dependsOn n hn) hc
    · rw [List.mem_singleton.mp hn]
      exact .single hc

/-- A path is not longer than there are services. -/
theorem Path.length_le (h : Path m₀ path q) : path.length ≤ m₀.configs.keys.card := by
  rw [← List.toFinset_card_of_nodup h.nodup]
  refine Finset.card_le_card fun n hn => ?_
  exact h.configured n (List.mem_toFinset.mp hn)

/-- What is asked for while it is under construction depends on itself. -/
theorem Path.not_buildable (h : Path m₀ path q) (hq : q ∈ path) : ¬ Buildable m₀ q :=
  fun hsound => hsound.not_onCycle (h.dependsOn q hq)

/-- **One level**: a service is built from its configuration exactly when it is
    sound, if the services it refers to are. -/
theorem buildConfigured_settles {build : Ctx → String → Prog Manager String Handler}
    {info : Info HTTPService} (hplain : info.conf.Plain env) (hconf : m₀.conf q = some info.conf)
    (hdis : info.status = .disabled → ¬ Buildable m₀ q) (hpath : Path m₀ path q)
    (hstack : ctx.stack = stackOf path) (hprov : ctx.provider = providerOf q)
    (hb : ∀ ctx' n, ctx'.stack = stackOf (path ++ [q]) → getQualifiedName ctx' n = resolve q n →
      Path m₀ (path ++ [q]) (resolve q n) →
        Settles (Inv m₀) (build ctx' n) (Buildable m₀ (resolve q n)) Silent) :
    Settles (Inv m₀) (buildConfigured env build ctx q info) (Buildable m₀ q) Silent := by
  unfold buildConfigured
  split
  · next h => exact settles_throw.congr (iff_of_false not_false (hdis h)) fun _ h => h
  · split
    · next htypes =>
      have hno : ¬ Buildable m₀ q := by
        rw [buildable_iff hconf]
        intro ⟨⟨hone, _⟩, _⟩
        omega
      exact (settles_fail hno multiTypes).congr (iff_of_false not_false hno) fun _ h => h
    · next htypes =>
      unfold checkRecursion
      rw [hstack]
      by_cases hq : q ∈ path
      · -- recursion
        have hno := hpath.not_buildable hq
        simp only [mem_stackOf_iff.mpr hq, if_true]
        exact (settles_fail hno _).congr (iff_of_false not_false hno) fun _ h => h
      · simp only [mem_stackOf_iff, hq, if_false]
        have hkey : q ∈ m₀.configs.keys := by
          by_contra hnone
          rw [conf_eq_none_iff.mpr hnone] at hconf
          cases hconf
        -- the services that `q` refers to are built with `q` under construction
        have hchild := fun n (hn : n ∈ info.conf.references) =>
          hb { ctx with stack := stackOf path ++ ["service" ++ ":" ++ q] } n
            (by simp [stackOf]) (getQualifiedName_congr hprov n)
            (hpath.snoc hq hkey ((refers_iff hconf _).mpr ⟨n, hn, rfl⟩))
        have hhandler := getHandler_settles
          { ctx with stack := stackOf path ++ ["service" ++ ":" ++ q] } q hplain (by omega) hchild
        rw [← buildable_iff hconf] at hhandler
        have hfailed := hhandler.onError fun hno err m hm => hm.addError hno err
        refine hfailed.followed fun lb hsound hsilent => ?_
        rw [hplain.middlewares]
        -- what is kept for later calls is sound
        refine (settles_pure hsilent).andThen fun lb hsilent => ?_
        apply Settles.andThen
        · exact settles_modify fun m hm => hm.save hsound hsilent
        · intro _ _
          exact settles_pure hsilent

/-- The hypotheses on what `BuildHTTP` is called with. -/
structure Setting (env : Env) (m₀ : Manager) : Prop where
  serviceBuilders : env.serviceBuilders = []
  plain : ∀ name service, m₀.conf name = some service → service.Plain env

/-- **Building comes to an end**: with depth for the services that are not under
    construction yet, a service is built exactly when it is sound, whatever was
    built or disabled before. -/
theorem buildHTTP_settles (h : Setting env m₀) (depth : Nat) (hpath : Path m₀ path q)
    (hstack : ctx.stack = stackOf path) (hq : getQualifiedName ctx name = q)
    (hdepth : m₀.configs.keys.card < depth + path.length) :
    Settles (Inv m₀) (buildHTTP env depth ctx name) (Buildable m₀ q) Silent := by
  induction depth generalizing ctx name path q with
  | zero =>
    -- every service is under construction, and there are not that many
    have := hpath.length_le
    omega
  | succ depth ih =>
    subst hq
    refine settles_get fun m hm => ?_
    split
    · next handler hbuilt =>
      -- built by an earlier call
      obtain ⟨hsound, hsilent⟩ := hm.built _ _ hbuilt
      exact (settles_pure hsilent).congr (iff_of_true trivial hsound) fun _ h => h
    · rw [h.serviceBuilders]
      refine (settles_ofResult rfl rfl).andThen fun built (hbuilt : none = built) => ?_
      subst hbuilt
      simp only
      split
      · next hnone =>
        have hbroken : Broken m₀ (getQualifiedName ctx name) := by
          intro svc hconf
          rw [← hm.conf] at hconf
          simp [conf, hnone] at hconf
        exact settles_throw.congr
          (iff_of_false not_false fun hsound => hsound.not_broken hbroken) fun _ h => h
      · next info hinfo =>
        have hconf : m₀.conf (getQualifiedName ctx name) = some info.conf := by
          rw [← hm.conf]
          simp [conf, hinfo]
        refine buildConfigured_settles (h.plain _ _ hconf) hconf (hm.disabled _ _ hinfo) hpath
          (by simpa using hstack) (provider_addInContext ctx name) ?_
        intro ctx' n hstack' hn hpath'
        refine ih hpath' hstack' hn ?_
        rw [List.length_append, List.length_singleton]
        omega

end

/-! ## Calls in any order -/

section
variable {configs : Finmap fun _ : String => Info HTTPService}

/-- A manager that nothing was asked of yet. -/
theorem inv_newManager
    (henabled : ∀ name info, configs.lookup name = some info → info.status ≠ .disabled) :
    Inv (newManager configs) (newManager configs) where
  conf := rfl
  built := by
    intro name handler h
    simp [newManager] at h
  disabled := fun name info hinfo hdis => absurd hdis (henabled name info hinfo)

theorem buildHTTP_settles_root (h : Setting env m₀) (provider : Option String) (root : String)
    {depth : Nat} (hdepth : m₀.configs.keys.card < depth) :
    Settles (Inv m₀) (buildHTTP env depth (rootCtx provider) root)
      (Buildable m₀ (getQualifiedName (rootCtx provider) root)) Silent :=
  buildHTTP_settles h depth (.nil m₀ _) rfl rfl hdepth

/-- **Every call keeps what calls keep.** -/
theorem inv_of_reachable (h : Setting env (newManager configs))
    (henabled : ∀ name info, configs.lookup name = some info → info.status ≠ .disabled)
    (hm : (builds env configs).Reachable m) : Inv (newManager configs) m := by
  refine System.invariant (Inv (newManager configs)) ?_ ?_ hm
  · intro m hinit
    rw [show m = newManager configs from hinit]
    exact inv_newManager henabled
  · intro m ⟨provider, name⟩ m' hinv ⟨depth, r, hrun⟩
    -- the call has the same outcome at a depth that is known to be sufficient
    have hrun' := buildHTTP_le (Nat.le_max_left depth (configs.keys.card + 1)) _ _ m _ hrun
    have hdepth : configs.keys.card < max depth (configs.keys.card + 1) := by omega
    obtain ⟨r', m'', hend, hinv', _⟩ := buildHTTP_settles_root h provider name hdepth m hinv
    rw [hend] at hrun'
    cases hrun'
    exact hinv'

theorem buildable_newManager_iff (q : String) :
    Buildable (newManager configs) q ↔
      ∀ n, Reaches (refs (newManager configs)) q n →
        (∃ service, (newManager configs).conf n = some service ∧ service.types = 1 ∧
          ∀ config, service.failover = some config → config.IsErrorDefined) ∧
        ¬ OnCycle (refs (newManager configs)) n := by
  unfold Buildable
  rw [sound_iff (refs_finite _)]
  simp only [Broken, HTTPService.Whole, not_forall, not_not, exists_prop]

/-- **`BuildHTTP` comes to an end**, whatever calls were made before, and it
    succeeds exactly when everything reached exists, has one type, has error
    statuses if it is a failover, and does not depend on itself. -/
theorem buildHTTP_succeeds_iff (h : Setting env (newManager configs))
    (henabled : ∀ name info, configs.lookup name = some info → info.status ≠ .disabled)
    (hm : (builds env configs).Reachable m) (provider : Option String) (root : String)
    {depth : Nat} (hdepth : configs.keys.card < depth) :
    ∃ r m', buildHTTP env depth (rootCtx provider) root m = some (r, m') ∧
      ((∃ handler, r = .ok handler) ↔
        ∀ n, Reaches (refs (newManager configs)) (getQualifiedName (rootCtx provider) root) n →
          (∃ service, (newManager configs).conf n = some service ∧ service.types = 1 ∧
            ∀ config, service.failover = some config → config.IsErrorDefined) ∧
          ¬ OnCycle (refs (newManager configs)) n) := by
  have hinv := inv_of_reachable h henabled hm
  obtain ⟨r, m', hend, _, hout⟩ := buildHTTP_settles_root h provider root hdepth m hinv
  refine ⟨r, m', hend, ?_⟩
  rw [← buildable_newManager_iff]
  rcases hout with ⟨handler, hr, hsound, _⟩ | ⟨⟨err, rfl⟩, hsound⟩
  · exact iff_of_true ⟨handler, hr⟩ hsound
  · exact iff_of_false (fun ⟨_, hr⟩ => by cases hr) hsound

end

/-- No shuffling, and servers whose proxies are built. -/
def plainEnv : Env where
  rand := ⟨fun _ _ => 1⟩
  buildProxy := fun _ _ => .ok ()
  getRoundTripper := fun _ => .ok ()
  serviceBuilders := []
  middlewareChainBuilder := none

/-- A load balancer of one server. -/
def oneServer : HTTPService :=
  { HTTPService.blank with loadBalancer := some ⟨["http://10.0.0.1"], .wrr, false, ""⟩ }

/-- A failover from `s` to `s`. -/
def failoverFrom (errors : Option FailoverError) : HTTPService :=
  { HTTPService.blank with failover := some ⟨"s", "s", false, errors⟩ }

/-- The load balancer `s` and the failover `f` over it. -/
def failoverOver (errors : Option FailoverError) : Finmap fun _ : String => Info HTTPService :=
  (singleton "s" (.enabled oneServer)).insert "f" (.enabled (failoverFrom errors))

section
variable {errors : Option FailoverError} {n : String}

theorem lookup_failoverOver {info : Info HTTPService}
    (h : (failoverOver errors).lookup n = some info) :
    info = .enabled (failoverFrom errors) ∨ info = .enabled oneServer := by
  unfold failoverOver at h
  by_cases hf : n = "f"
  · subst hf
    cases h
    exact .inl rfl
  · rw [lookup_insert_of_ne _ hf] at h
    by_cases hs : n = "s"
    · subst hs
      cases h
      exact .inr rfl
    · rw [lookup_eq_none.mpr (by simpa using hs)] at h
      cases h

theorem failoverOver_enabled :
    ∀ name info, (failoverOver errors).lookup name = some info → info.status ≠ .disabled := by
  intro name info hinfo
  rcases lookup_failoverOver hinfo with rfl | rfl
  · simp [Info.enabled]
  · simp [Info.enabled]

theorem failoverOver_setting
    (hval : ∀ e, errors = some e → ∃ ranges, newHTTPCodeRanges e.status = .ok ranges) :
    Setting plainEnv (newManager (failoverOver errors)) where
  serviceBuilders := rfl
  plain := by
    intro name svc hconf
    obtain ⟨info, hinfo, rfl⟩ := Option.map_eq_some_iff.mp hconf
    rcases lookup_failoverOver hinfo with rfl | rfl
    · constructor <;> simp [Info.enabled, failoverFrom, blank]
      exact hval
    · constructor <;> simp [Info.enabled, oneServer, blank]
      exact ⟨by simp, by simp [plainEnv]⟩

theorem refs_failoverOver : refs (newManager (failoverOver errors)) "f" = ["s", "s"] := by
  have hconf : (newManager (failoverOver errors)).conf "f" = some (failoverFrom errors) := rfl
  have hs : resolve "f" "s" = "s" := by decide
  simp [refs, hconf, failoverFrom, references, blank, hs]

theorem failoverOver_grounded : Grounded (refs (newManager (failoverOver errors))) "f" := by
  have hs : Grounded (refs (newManager (failoverOver errors))) "s" :=
    .intro _ fun c hc => by cases hc
  refine .intro _ fun c hc => ?_
  obtain rfl : c = "s" := by
    simpa [Refers, refs_failoverOver] using hc
  exact hs

/-- Everything that `f` reaches exists and has one type, and there is no cycle. -/
theorem failoverOver_reaches (h : Reaches (refs (newManager (failoverOver errors))) "f" n) :
    (∃ service, (newManager (failoverOver errors)).conf n = some service ∧ service.types = 1 ∧
      ∀ config, service.failover = some config → config.errors = errors) ∧
    ¬ OnCycle (refs (newManager (failoverOver errors))) n := by
  refine ⟨?_, (failoverOver_grounded.of_reaches h).not_onCycle⟩
  have hname : n = "f" ∨ n = "s" := by
    induction h with
    | refl => exact .inl rfl
    | tail _ hstep ih =>
      rcases ih with rfl | rfl
      · exact .inr (by simpa [Refers, refs_failoverOver] using hstep)
      · cases hstep
  rcases hname with rfl | rfl
  · exact ⟨failoverFrom errors, rfl, rfl, by simp [failoverFrom]⟩
  · exact ⟨oneServer, rfl, rfl, by simp [oneServer, blank]⟩

end

/-- A failover with error statuses is built. -/
theorem failoverOnErrors_succeeds :
    ∃ handler m', buildHTTP plainEnv 3 (rootCtx none) "f"
      (newManager (failoverOver (some ⟨none, ["500-504"]⟩))) = some (.ok handler, m') := by
  have hsetting : Setting plainEnv (newManager (failoverOver (some ⟨none, ["500-504"]⟩))) := by
    refine failoverOver_setting fun e he => ?_
    cases he
    exact ⟨[(500, 504)], by decide +kernel⟩
  have hdepth : (failoverOver (some ⟨none, ["500-504"]⟩)).keys.card < 3 := by decide +kernel
  obtain ⟨r, m', hend, hout⟩ :=
    buildHTTP_succeeds_iff hsetting failoverOver_enabled (.init rfl) none "f" hdepth
  obtain ⟨handler, rfl⟩ := hout.mpr fun n hreach => by
    obtain ⟨⟨svc, hconf, htypes, herrors⟩, hcycle⟩ := failoverOver_reaches hreach
    refine ⟨⟨svc, hconf, htypes, fun cfg hcfg => ?_⟩, hcycle⟩
    exact ⟨_, herrors cfg hcfg, by simp⟩
  exact ⟨handler, m', hend⟩

/-- Without health checks a failover that has no error statuses is not built,
    although everything it reaches exists, has one type and depends on nothing
    under construction. -/
theorem failoverOnHealth_fails :
    Setting plainEnv (newManager (failoverOver none)) ∧
    (∀ name info, (failoverOver none).lookup name = some info → info.status ≠ .disabled) ∧
    (∀ n, Reaches (refs (newManager (failoverOver none))) "f" n →
      (∃ service, (newManager (failoverOver none)).conf n = some service ∧ service.types = 1) ∧
      ¬ OnCycle (refs (newManager (failoverOver none))) n) ∧
    ∀ depth ≥ 3, ∃ m', buildHTTP plainEnv depth (rootCtx none) "f" (newManager (failoverOver none)) =
      some (.error ("cannot register s as updater for f: " ++
        "healthCheck not enabled in config for this WRR service"), m') := by
  refine ⟨failoverOver_setting (by simp), failoverOver_enabled, ?_, ?_⟩
  · intro n hreach
    obtain ⟨⟨service, hconf, htypes, _⟩, hcycle⟩ := failoverOver_reaches hreach
    exact ⟨⟨service, hconf, htypes⟩, hcycle⟩
  · intro depth hdepth
    exact ⟨_, buildHTTP_le hdepth _ _ _ _ rfl⟩

end Ingress.Service.Http
