import Ingress.Framework.Journal
import Ingress.Gateway.MatchRule
import Ingress.Provider.Normalize

/-! # Filters and Backends of HTTP Routes

    `httproute.go`: the middlewares of filters, and the servers of references to
    Kubernetes Services.  The functions of this module read the cluster and nothing
    else.

    * `namedMiddlewares`: the first half of `loadMiddlewares`.
    * `getBackendAddresses`, `loadHTTPServers`: the code.
    * `ServersOf`: the servers are the addresses of the backend. -/

open Ingress.Provider Outcome

namespace Ingress.Gateway

/-! ## Filters -/

/-- `HTTPPathModifierType`. -/
inductive PathModifierType where
  | fullPath
  | prefixMatch
  | other (name : String)
  deriving DecidableEq, Repr

structure HTTPPathModifier where
  type : PathModifierType
  replaceFullPath : Option String
  replacePrefixMatch : Option String
  deriving DecidableEq, Repr

structure HTTPRequestRedirectFilter where
  scheme : Option String
  hostname : Option String
  path : Option HTTPPathModifier
  port : Option ℕ
  statusCode : Option ℕ
  deriving DecidableEq, Repr

structure HTTPHeaderFilter where
  set : List (String × String)
  add : List (String × String)
  remove : List String
  deriving DecidableEq, Repr

structure HTTPURLRewriteFilter where
  hostname : Option String
  path : Option HTTPPathModifier
  deriving DecidableEq, Repr

structure LocalObjectReference where
  group : String
  kind : String
  name : String
  deriving DecidableEq, Repr

/-- `HTTPRouteFilter`: its type, with the field that goes with it. -/
inductive HTTPRouteFilter where
  | requestRedirect (filter : HTTPRequestRedirectFilter)
  | requestHeaderModifier (filter : HTTPHeaderFilter)
  | responseHeaderModifier (filter : HTTPHeaderFilter)
  | extensionRef (ref : Option LocalObjectReference)
  | urlRewrite (filter : HTTPURLRewriteFilter)
  | other (type : String)
  deriving DecidableEq, Repr

def HTTPRouteFilter.type : HTTPRouteFilter → String
  | .requestRedirect _ => "RequestRedirect"
  | .requestHeaderModifier _ => "RequestHeaderModifier"
  | .responseHeaderModifier _ => "ResponseHeaderModifier"
  | .extensionRef _ => "ExtensionRef"
  | .urlRewrite _ => "URLRewrite"
  | .other type => type

/-- `dynamic.Middleware`, of the kinds that are built here.  The headers of a modifier
    are a map: a later value of a header replaces an earlier one. -/
inductive Middleware where
  | requestRedirect (scheme hostname port path pathPrefix : Option String) (statusCode : ℕ)
  | requestHeaderModifier (set add : Finmap fun _ : String => String) (remove : List String)
  | responseHeaderModifier (set add : Finmap fun _ : String => String) (remove : List String)
  | urlRewrite (hostname path pathPrefix : Option String)
  deriving DecidableEq

def headerMap (headers : List (String × String)) : Finmap fun _ : String => String :=
  headers.foldl (fun m header => m.insert header.1 header.2) ∅

/-- The path and the prefix that a modifier sets. -/
def modifiedPath (path : Option HTTPPathModifier) (pathMatch : HTTPPathMatch) :
    Option String × Option String :=
  match path with
  | none => (none, none)
  | some modifier =>
    match modifier.type with
    | .fullPath => (modifier.replaceFullPath, none)
    | .prefixMatch => (modifier.replacePrefixMatch, pathMatch.value)
    | .other _ => (none, none)

def createRequestRedirect (filter : HTTPRequestRedirectFilter) (pathMatch : HTTPPathMatch) :
    Middleware :=
  let filterScheme := filter.scheme.getD ""
  let schemePort := if filterScheme = "http" ∨ filterScheme = "https" then some "" else none
  let port := (filter.port.map fun port => toString port).or schemePort
  let (path, pathPrefix) := modifiedPath filter.path pathMatch
  .requestRedirect filter.scheme filter.hostname port path pathPrefix (filter.statusCode.getD 302)

def createRequestHeaderModifier (filter : HTTPHeaderFilter) : Middleware :=
  .requestHeaderModifier (headerMap filter.set) (headerMap filter.add) filter.remove

def createResponseHeaderModifier (filter : HTTPHeaderFilter) : Middleware :=
  .responseHeaderModifier (headerMap filter.set) (headerMap filter.add) filter.remove

def createURLRewrite (filter : HTTPURLRewriteFilter) (pathMatch : HTTPPathMatch) :
    Except String Middleware :=
  if filter.path = none ∧ filter.hostname = none then .error "empty configuration"
  else
    let (path, pathPrefix) := modifiedPath filter.path pathMatch
    .ok (.urlRewrite filter.hostname path pathPrefix)

/-! ## The cluster -/

structure ServicePort where
  name : String
  port : ℕ
  protocol : String
  appProtocol : Option String
  deriving DecidableEq, Repr

/-- A Kubernetes Service; `nativeLB` is what its annotations say. -/
structure KubernetesService where
  externalName : Bool
  ports : List ServicePort
  nativeLB : Except String (Option Bool)
  clusterIP : String

/-- An endpoint: whether it is ready, if that is known, and its addresses. -/
structure Endpoint where
  ready : Option Bool
  addresses : List String
  deriving DecidableEq, Repr

structure EndpointSlice where
  ports : List (String × ℕ)
  endpoints : List Endpoint
  deriving DecidableEq, Repr

/-- `BackendTLSPolicy`, with the sections of its target references. -/
structure BackendTLSPolicy where
  creationTimestamp : ℕ
  name : String
  targetSections : List (Option String)
  hostname : String
  wellKnownCACertificates : Bool
  caCertificateRefs : List LocalObjectReference
  deriving DecidableEq, Repr

structure ServersTransport where
  serverName : String
  rootCAs : List String
  deriving DecidableEq, Repr

/-- Where references may come from. -/
structure GrantFrom where
  group : String
  kind : String
  namespaceOf : String
  deriving DecidableEq, Repr

/-- What references may be to. -/
structure GrantTo where
  group : String
  kind : String
  name : Option String
  deriving DecidableEq, Repr

structure ReferenceGrant where
  sources : List GrantFrom
  targets : List GrantTo
  deriving DecidableEq, Repr

/-- What the provider reads, and the functions that the provider of custom resources
    registers for extensions; those for backends return a name, and no service.  Rules
    are hashed to the hexadecimal digits of ten bytes. -/
structure Cluster where
  unicode : Unicode
  hash : String → String
  nativeLBByDefault : Bool
  getService : String → String → Except String KubernetesService
  endpointSlices : String → String → Except String (List EndpointSlice)
  tlsPolicies : String → String → Except String (List BackendTLSPolicy)
  configMap : String → String → Except String (Option String)
  referenceGrants : String → Except String (List ReferenceGrant)
  filterFuncs : String → String → Option (String → String → Except String (String × Option Middleware))
  backendFuncs : String → String → Option (String → String → Except String String)
  hash_length : ∀ rule, (hash rule).length = 20
  hash_digits : ∀ rule, '-' ∉ (hash rule).toList

def groupCore : String := "core"

def kindService : String := "Service"

/-- `referenceGrantMatchesFrom`. -/
def ReferenceGrant.matchesFrom (grant : ReferenceGrant) (group kind namespaceName : String) : Bool :=
  grant.sources.any fun source =>
    let sanitizedGroup := if source.group = "" then groupCore else source.group
    source.namespaceOf = namespaceName && source.kind = kind && sanitizedGroup = group

/-- `referenceGrantMatchesTo`. -/
def ReferenceGrant.matchesTo (grant : ReferenceGrant) (group kind name : String) : Bool :=
  grant.targets.any fun target =>
    let sanitizedGroup := if target.group = "" then groupCore else target.group
    target.kind = kind && sanitizedGroup = group && target.name.all (· = name)

variable (cluster : Cluster)

def isReferenceGranted (fromKind fromNamespace toGroup toKind toName
    toNamespace : String) : Except String Unit :=
  if toNamespace = fromNamespace then .ok ()
  else do
    let refGrants ← (cluster.referenceGrants toNamespace).mapError ("listing ReferenceGrant: " ++ ·)
    if refGrants.any fun grant =>
        grant.matchesFrom groupName fromKind fromNamespace && grant.matchesTo toGroup toKind toName then
      pure ()
    else throw "missing ReferenceGrant"

/-! ## Middlewares -/

def loadHTTPRouteFilterExtensionRef (namespaceName : String)
    (extensionRef : Option LocalObjectReference) : Except String (String × Option Middleware) :=
  match extensionRef with
  | none => .error "filter extension ref undefined"
  | some ref =>
    match cluster.filterFuncs ref.group ref.kind with
    | none => .error ("unsupported filter extension ref " ++ ref.group ++ "/" ++ ref.kind ++ "/" ++
        ref.name)
    | some filterFunc => filterFunc ref.name namespaceName

/-- The path of a match, or the default. -/
def pathMatchOf (pathMatch : Option HTTPPathMatch) : HTTPPathMatch :=
  pathMatch.getD { type := some .pathPrefix, value := some "/" }

/-- The middleware of one filter, with its name. -/
def namedMiddleware (namespaceName routerName : String) (pm : HTTPPathMatch)
    (i : ℕ) (filter : HTTPRouteFilter) : Except String (String × Option Middleware) :=
  let name := routerName ++ "-" ++ filter.type.toLower ++ "-" ++ toString i
  match filter with
  | .requestRedirect filter => .ok (name, some (createRequestRedirect filter pm))
  | .requestHeaderModifier filter => .ok (name, some (createRequestHeaderModifier filter))
  | .responseHeaderModifier filter => .ok (name, some (createResponseHeaderModifier filter))
  | .extensionRef ref =>
    (loadHTTPRouteFilterExtensionRef cluster namespaceName ref).mapError
      ("loading ExtensionRef filter ExtensionRef: " ++ ·)
  | .urlRewrite filter =>
    ((createURLRewrite filter pm).map fun middleware => (name, some middleware)).mapError
      ("invalid filter URLRewrite: " ++ ·)
  | .other type => .error ("unsupported filter " ++ type)

/-- The middlewares of filters, from the `i`-th on. -/
def namedMiddlewares (cluster : Cluster) (namespaceName routerName : String) (pm : HTTPPathMatch)
    (i : ℕ) : List HTTPRouteFilter → Except String (List (String × Option Middleware))
  | [] => .ok []
  | filter :: filters => do
    let middleware ← namedMiddleware cluster namespaceName routerName pm i filter
    let middlewares ← namedMiddlewares cluster namespaceName routerName pm (i + 1) filters
    pure (middleware :: middlewares)

/-! ## Backends -/

structure HTTPBackendRef where
  group : Option String
  kind : Option String
  namespaceOf : Option String
  name : String
  port : Option ℕ
  weight : Option ℤ
  filters : List HTTPRouteFilter
  deriving DecidableEq, Repr

structure BackendAddress where
  ip : String
  port : ℕ
  deriving DecidableEq, Repr

/-- The ready addresses of an endpoint slice on a port that are not known yet. -/
def sliceAddresses (known : List BackendAddress) (port : ℕ) (endpoints : List Endpoint) :
    List BackendAddress :=
  endpoints.foldl (fun known endpoint =>
    if endpoint.ready ≠ some true then known
    else endpoint.addresses.foldl (fun known address =>
      if known.any (·.ip = address) then known else known ++ [⟨address, port⟩]) known) known

def getBackendAddresses (namespaceName : String) (ref : HTTPBackendRef) :
    Except String (List BackendAddress × ServicePort) := do
  let some refPort := ref.port | throw "port is required for Kubernetes Service reference"
  let service ← (cluster.getService namespaceName ref.name).mapError ("getting service: " ++ ·)
  if service.externalName then
    throw "type ExternalName is not supported for Kubernetes Service reference"
  let some svcPort := service.ports.find? (·.port = refPort)
    | throw ("service port " ++ toString refPort ++ " not found")
  let annotated ← service.nativeLB.mapError ("parsing service annotations config: " ++ ·)
  if annotated.getD cluster.nativeLBByDefault then
    if service.clusterIP = "" ∨ service.clusterIP = "None" then
      throw ("no clusterIP found for service: " ++ namespaceName ++ "/" ++ ref.name)
    pure ([⟨service.clusterIP, svcPort.port⟩], svcPort)
  else
    let endpointSlices ← (cluster.endpointSlices namespaceName ref.name).mapError
      ("getting endpointslices: " ++ ·)
    if endpointSlices = [] then throw "endpointslices not found"
    let addresses := endpointSlices.foldl (fun known slice =>
      let port := ((slice.ports.find? (·.1 = svcPort.name)).map Prod.snd).getD 0
      if port = 0 then known else sliceAddresses known port slice.endpoints) []
    pure (addresses, svcPort)

/-- `Condition`: the reason and the message of a condition that is false. -/
structure Condition where
  reason : String
  message : String
  deriving DecidableEq, Repr

/-- The certificates of the references of a policy. -/
def rootCAs (cluster : Cluster) (namespaceName : String) :
    List LocalObjectReference → Except String (List String)
  | [] => .ok []
  | ref :: refs => do
    if (ref.group ≠ "" ∧ ref.group ≠ groupCore) ∨ ref.kind ≠ "ConfigMap" then
      throw "Only ConfigMaps are supported"
    let data ← (cluster.configMap namespaceName ref.name).mapError fun err =>
      "getting configmap " ++ namespaceName ++ "/" ++ ref.name ++ ": " ++ err
    let some ca := data
      | throw ("configmap " ++ namespaceName ++ "/" ++ ref.name ++ " does not have a ca.crt")
    let rest ← rootCAs cluster namespaceName refs
    pure (ca :: rest)

def loadServersTransport (namespaceName : String) (policy : BackendTLSPolicy) :
    Except String ServersTransport :=
  if policy.wellKnownCACertificates then .ok ⟨policy.hostname, []⟩
  else (rootCAs cluster namespaceName policy.caCertificateRefs).map (⟨policy.hostname, ·⟩)

/-- The order of the policies: by age, then by name. -/
def BackendTLSPolicy.before (a b : BackendTLSPolicy) : Bool :=
  a.creationTimestamp < b.creationTimestamp ||
    (a.creationTimestamp = b.creationTimestamp && decide (a.name ≤ b.name))

/-- The first policy for the port, which decides; the others are in conflict with it. -/
def policyFor (svcPort : ServicePort) (policies : List BackendTLSPolicy) :
    Option BackendTLSPolicy :=
  (policies.insertionSort fun a b => a.before b = true).find? fun policy =>
    policy.targetSections.any fun sectionName => sectionName.all (· = svcPort.name)

def getHTTPServiceProtocol (portSpec : ServicePort) : Except String String :=
  if portSpec.protocol ≠ "TCP" then .error "only TCP protocol is supported"
  else
    match portSpec.appProtocol with
    | none =>
      .ok (if portSpec.port = 443 ∨ "https".isPrefixOf portSpec.name = true then "https" else "http")
    | some appProtocol =>
      let ap := appProtocol.toLower
      if ap = "kubernetes.io/h2c" then .ok "h2c"
      else if ap = "http" ∨ ap = "kubernetes.io/ws" then .ok "http"
      else if ap = "https" ∨ ap = "kubernetes.io/wss" then .ok "https"
      else .error ("unsupported application protocol " ++ ap)

def joinHostPort (host port : String) : String :=
  if host.toList.any (· = ':') then "[" ++ host ++ "]:" ++ port else host ++ ":" ++ port

/-- The URL of the server at an address. -/
def serverURL (protocol : String) (ba : BackendAddress) : String :=
  protocol ++ "://" ++ joinHostPort ba.ip (toString ba.port)

/-- `loadHTTPServers`: the URLs of the servers, and their transport. -/
def loadHTTPServers (namespaceName : String) (ref : HTTPBackendRef) :
    Except Condition (List String × Option ServersTransport) := do
  let failed (err : String) : String :=
    "Cannot load HTTPBackendRef " ++ namespaceName ++ "/" ++ ref.name ++ ": " ++ err
  let (addresses, svcPort) ← (getBackendAddresses cluster namespaceName ref).mapError fun err =>
    ⟨"BackendNotFound", failed err⟩
  let policies ← (cluster.tlsPolicies namespaceName ref.name).mapError fun err =>
    ⟨"RefNotPermitted", "Cannot list BackendTLSPolicies for Service " ++ namespaceName ++ "/" ++
      ref.name ++ ": " ++ err⟩
  match policyFor svcPort policies with
  | some policy =>
    -- a policy for the port means that the protocol is HTTPS
    let transport ← (loadServersTransport cluster namespaceName policy).mapError fun err =>
      ⟨"RefNotPermitted", "Cannot apply BackendTLSPolicy for Service " ++ namespaceName ++ "/" ++
        ref.name ++ ": " ++ err⟩
    pure (addresses.map (serverURL "https"), some transport)
  | none =>
    let protocol ← (getHTTPServiceProtocol svcPort).mapError fun err =>
      ⟨"UnsupportedProtocol", failed err⟩
    pure (addresses.map (serverURL protocol), none)

/-- The servers are the addresses of the backend. -/
def ServersOf (namespaceName : String) (ref : HTTPBackendRef) (servers : List String) : Prop :=
  ∃ addresses svcPort protocol,
    getBackendAddresses cluster namespaceName ref = .ok (addresses, svcPort) ∧
      servers = addresses.map (serverURL protocol)

end Ingress.Gateway
