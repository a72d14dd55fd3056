import Mathlib.Tactic

/-! # Listeners of Gateways

    `pkg/provider/kubernetes/gateway`: which listeners a route refers to, and which
    hostnames they have in common.

    A hostname is what the definition of the resource accepts: labels of lower case
    letters, digits and dashes, perhaps after `*.`.

    * `findMatchingHostnames`, `allowRoute`, `matchingGatewayListeners`,
      `matchListener`: the code.
    * `Hostname.shape`: a hostname is a domain, or `*.` and a domain. -/

namespace Ingress.Gateway

/-! ## Hostnames -/

/-- The characters of a domain. -/
def isHostChar (c : Char) : Bool :=
  ('a' ≤ c && c ≤ 'z') || ('0' ≤ c && c ≤ '9') || c = '-' || c = '.'

/-- A part of a domain. -/
def isLabel (label : List Char) : Bool :=
  label ≠ [] && label.head? ≠ some '-' && label.getLast? ≠ some '-'

def isDomain (cs : List Char) : Bool :=
  cs.all isHostChar && (cs.splitOn '.').all isLabel

/-- The pattern of hostnames. -/
def isHostname (cs : List Char) : Bool :=
  match cs with
  | '*' :: '.' :: domain => isDomain domain
  | domain => isDomain domain

structure Hostname where
  text : String
  pattern : isHostname text.toList = true
  maxLength : text.length ≤ 253
  deriving DecidableEq

/-- A domain, or the subdomains of one. -/
theorem Hostname.shape (h : Hostname) :
    (isDomain h.text.toList = true ∧ '*' ∉ h.text.toList) ∨
      ∃ domain, h.text.toList = '*' :: '.' :: domain ∧ isDomain domain = true := by
  have hpat := h.pattern
  unfold isHostname at hpat
  split at hpat
  next domain heq => exact .inr ⟨domain, heq, hpat⟩
  next =>
    refine .inl ⟨hpat, fun hstar => ?_⟩
    have hall := List.all_eq_true.mp ((Bool.and_eq_true _ _).mp hpat).1
    exact absurd (hall '*' hstar) (by decide)

/-- `strings.Count(s, "*")`. -/
def wildcards (s : String) : ℕ :=
  s.toList.count '*'

def lessWildcards (h1 h2 : Hostname) : Hostname :=
  if wildcards h1.text > wildcards h2.text then h2 else h1

/-- `findMatchingHostname`.  No hostname is empty, which the code returns for none. -/
def findMatchingHostname (h1 h2 : Hostname) : Option Hostname :=
  if h1 = h2 then some h1
  else if !"*.".isPrefixOf h1.text then none
  else
    let trimmedH1 := h1.text.toList.drop 1
    -- root domain doesn't match subdomain wildcard
    if trimmedH1 = h2.text.toList then none
    else if !trimmedH1.isSuffixOf h2.text.toList then none
    else some (lessWildcards h1 h2)

def findMatchingHostnames (listenerHostname : Option Hostname) (routeHostnames : List Hostname) :
    List Hostname × Bool :=
  match listenerHostname with
  | none => (routeHostnames, true)
  | some listenerHostname =>
    if routeHostnames = [] then ([listenerHostname], true)
    else
      let hostnames := routeHostnames.filterMap fun routeHostname =>
        (findMatchingHostname listenerHostname routeHostname).or
          (findMatchingHostname routeHostname listenerHostname)
      (hostnames, hostnames ≠ [])

/-! ## Listeners -/

/-- The protocols of listeners. -/
inductive Protocol where
  | http
  | https
  | tls
  | tcp
  | other (name : String)
  deriving DecidableEq, Repr

/-- `gatewayListener`: what is read of it when routes are loaded. -/
structure GatewayListener where
  name : String
  port : ℕ
  protocol : Protocol
  hostname : Option Hostname
  allowedNamespaces : List String
  allowedRouteKinds : List String
  attached : Bool
  gwName : String
  gwNamespace : String
  epName : String
  deriving DecidableEq

structure ParentReference where
  group : Option String
  kind : Option String
  namespaceOf : Option String
  name : String
  sectionName : Option String
  port : Option ℕ
  deriving DecidableEq, Repr

def groupName : String := "gateway.networking.k8s.io"

def kindGateway : String := "Gateway"

def kindHTTPRoute : String := "HTTPRoute"

def namespaceAll : String := ""

def allowRoute (listener : GatewayListener) (routeNamespace routeKind : String) : Bool :=
  if routeKind ∉ listener.allowedRouteKinds then false
  else listener.allowedNamespaces.any fun allowedNamespace =>
    allowedNamespace = namespaceAll || allowedNamespace = routeNamespace

/-- The reference is to the gateway of the listener. -/
def ParentReference.namesGateway (routeNamespace : String) (listener : GatewayListener)
    (parentRef : ParentReference) : Bool :=
  if parentRef.group.getD groupName ≠ groupName then false
  else if parentRef.kind.getD kindGateway ≠ kindGateway then false
  else if listener.gwNamespace ≠ parentRef.namespaceOf.getD routeNamespace then false
  else parentRef.name = listener.gwName

/-- `matchingGatewayListeners`: a listener is listed once for each reference. -/
def matchingGatewayListeners (gatewayListeners : List GatewayListener) (routeNamespace : String)
    (parentRefs : List ParentReference) : List GatewayListener :=
  gatewayListeners.flatMap fun listener =>
    (parentRefs.filter (ParentReference.namesGateway routeNamespace listener)).map fun _ => listener

def matchListener (listener : GatewayListener) (parentRef : ParentReference) : Bool :=
  let sectionName := parentRef.sectionName.getD ""
  if sectionName ≠ "" ∧ sectionName ≠ listener.name then false
  else parentRef.port.all (· = listener.port)

/-- A listener is listed when some reference is to its gateway. -/
theorem mem_matchingGatewayListeners {listeners : List GatewayListener}
    {ns : String} {parentRefs : List ParentReference} {l : GatewayListener} :
    l ∈ matchingGatewayListeners listeners ns parentRefs ↔
      l ∈ listeners ∧
        ∃ parentRef ∈ parentRefs, parentRef.namesGateway ns l = true := by
  simp only [matchingGatewayListeners, List.mem_flatMap, List.mem_map, List.mem_filter]
  constructor
  · rintro ⟨listener, hmem, parentRef, hparentRef, rfl⟩
    exact ⟨hmem, parentRef, hparentRef⟩
  · rintro ⟨hmem, parentRef, hparentRef⟩
    exact ⟨l, hmem, parentRef, hparentRef, rfl⟩

end Ingress.Gateway
