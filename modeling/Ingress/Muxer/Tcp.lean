import Ingress.Framework.Dispatch
import Ingress.Muxer.Matchers

/-! # The TCP Muxer

    `pkg/muxer/tcp`: routes with rules and priorities, and the handler of the best
    route that matches a connection.

    * `Muxer.addRoute`, `Muxer.matchConn`: the code.
    * `tcpFuncs`: the matchers of the default syntax.  `hostSNI` changes the host it
      has captured when it is called.
    * `run_stored`, `matches_of_sorted`: the routes after any calls, and the route
      that is found. -/

open Outcome Dispatch Ingress.Rules Ingress.Muxer

namespace Ingress.TcpMuxer

structure ConnData where
  serverName : String
  remoteIP : String
  alpnProtos : List String
  deriving DecidableEq, Repr

variable {M H : Type}

/-! ## Routes -/

/-- `addRule` returns the errors as they are. -/
def kind (call : M → ConnData → Bool × M) : Kind M ConnData where
  call := call
  adding := fun _ err => err
  checking := fun _ err => err

structure Route (M H : Type) where
  matchers : MatchersTree M
  handler : H
  catchAll : Bool
  priority : ℤ

/-- `sort.Sort`, of routes. -/
abbrev RouteSorter (M H : Type) := Sorter (Route.priority (M := M) (H := H))

/-- Whether a route matches, and the route after it was asked. -/
def Route.ask (call : M → ConnData → Bool × M) (conn : ConnData) (route : Route M H) :
    Bool × Route M H :=
  ((route.matchers.matchOn (kind call) conn).1,
    { route with matchers := (route.matchers.matchOn (kind call) conn).2 })

/-- `Muxer`, with the matchers of the two syntaxes. -/
structure Muxer (M H : Type) where
  routes : List (Route M H)
  parser : MatcherFuncs M
  parserV2 : MatcherFuncs M

/-- The arguments of `AddRoute`. -/
structure AddRoute (H : Type) where
  rule : String
  syntaxName : String
  priority : ℤ
  handler : H

/-- `strings.EqualFold`, of the names of matchers. -/
def equalFold (s t : String) : Bool :=
  s.toLower = t.toLower

/-- The tree is that of a rule with `HostSNI` and nothing but `*`.  The flag of a
    negation is not looked at. -/
def isCatchAll : Rules.Tree → Bool
  | .matcher name _ [value] => value = "*" && equalFold name "HostSNI"
  | _ => false

def getRulePriority (rule : String) : ℤ :=
  match (Rules.Parser.mk ["HostSNI"]).parse rule with
  | .error _ => rule.utf8ByteSize
  | .ok buildTree => if isCatchAll (buildTree ()) then -1 else rule.utf8ByteSize

/-- The matchers of a syntax. -/
def funcsOf (parser parserV2 : MatcherFuncs M) (syntaxName : String) : MatcherFuncs M :=
  if syntaxName = "v2" then parserV2 else parser

/-- The route that `AddRoute` appends. -/
def AddRoute.route (call : M → ConnData → Bool × M) (parser parserV2 : MatcherFuncs M)
    (c : AddRoute H) : Except String (Route M H) := do
  let matcherFuncs := funcsOf parser parserV2 c.syntaxName
  let buildTree ← (matcherFuncs.parser.parse c.rule).mapError
    ("error while parsing rule " ++ c.rule ++ ": " ++ ·)
  let matchers ← (addRule (kind call) matcherFuncs (buildTree ())).mapError
    ("error while adding rule " ++ c.rule ++ ": " ++ ·)
  pure { matchers, handler := c.handler, catchAll := isCatchAll (buildTree ()),
         priority := c.priority }

def Muxer.addRoute (call : M → ConnData → Bool × M) (sorter : RouteSorter M H) (m : Muxer M H)
    (c : AddRoute H) : Except String Unit × Muxer M H :=
  match c.route call m.parser m.parserV2 with
  | .error err => (.error err, m)
  | .ok route => (.ok (), { m with routes := sorter.sort (m.routes ++ [route]) })

/-- `Match`: the handler, if any, and whether the route is a catch-all. -/
def Muxer.matchConn (call : M → ConnData → Bool × M) (m : Muxer M H) (conn : ConnData) :
    (Option H × Bool) × Muxer M H :=
  let (selected, routes) := select (Route.ask call conn) m.routes
  match selected with
  | some route => ((some route.handler, route.catchAll), { m with routes })
  | none => ((none, false), { m with routes })

def Muxer.hasRoutes (m : Muxer M H) : Bool :=
  m.routes.length > 0

/-- The muxer after one call. -/
def Muxer.step (call : M → ConnData → Bool × M) (sorter : RouteSorter M H) (m : Muxer M H) :
    Event (AddRoute H) ConnData → Muxer M H
  | .add c => (m.addRoute call sorter c).2
  | .serve conn => (m.matchConn call conn).2

/-- The muxer after any calls, `NewMuxer` being the first. -/
def Muxer.run (call : M → ConnData → Bool × M) (sorter : RouteSorter M H)
    (parser parserV2 : MatcherFuncs M) (calls : List (Event (AddRoute H) ConnData)) : Muxer M H :=
  calls.foldl (Muxer.step call sorter) { routes := [], parser, parserV2 }

/-! ## Matchers -/

/-- What the closure of a matcher has captured. -/
inductive Matcher where
  | alpn (proto : String)
  | clientIP (contains : String → Bool)
  | anySNI
  | hostSNI (host : String)
  | hostSNIRegexp (matchString : String → Bool)

/-- `strings.TrimSuffix`, of a period. -/
def trimPeriod (host : String) : String :=
  if host.toList.getLast? = some '.' then String.ofList host.toList.dropLast else host

def Matcher.call : Matcher → ConnData → Bool × Matcher
  | .alpn proto, conn => (proto ∈ conn.alpnProtos, .alpn proto)
  | .clientIP contains, conn => (contains conn.remoteIP, .clientIP contains)
  | .anySNI, _ => (true, .anySNI)
  | .hostSNI host, conn =>
    if conn.serverName = "" then (false, .hostSNI host)
    else if host = conn.serverName then (true, .hostSNI host)
    else (trimPeriod host = conn.serverName, .hostSNI (trimPeriod host))
  | .hostSNIRegexp matchString, conn => (matchString conn.serverName, .hostSNIRegexp matchString)

/-- The IP checker of `pkg/ip`, an error of which is no match, and `regexp.Compile`. -/
structure Engines where
  newChecker : String → Except String (String → Bool)
  compile : String → Except String (String → Bool)

def expect1Parameter (fn : String → Except String Matcher) (s : List String) :
    Except String Matcher :=
  match s with
  | [x] => fn x
  | _ => .error ("unexpected number of parameters; got " ++ toString s.length ++ ", expected 1")

def alpn (proto : String) : Except String Matcher :=
  if proto = "acme-tls/1" then
    .error ("invalid protocol value for ALPN matcher, " ++ proto.quote ++ " is not allowed")
  else .ok (.alpn proto)

def clientIP (engines : Engines) (clientIP : String) : Except String Matcher := do
  let checker ← (engines.newChecker clientIP).mapError
    ("initializing IP checker for ClientIP matcher: " ++ ·)
  pure (.clientIP checker)

/-- A character of `hostOrIP`. -/
def isHostChar (c : Char) : Bool :=
  c.isAlphanum || c = '_' || c = '.' || c = '-' || c = ':'

/-- `hostOrIP.MatchString`. -/
def hostOrIP (host : String) : Bool :=
  host ≠ "" && host.toList.all isHostChar

def hostSNI (host : String) : Except String Matcher :=
  if host = "*" then .ok .anySNI
  else if hostOrIP host then .ok (.hostSNI host)
  else .error ("invalid value for HostSNI matcher, " ++ host.quote ++ " is not a valid hostname")

def hostSNIRegexp (engines : Engines) (template : String) : Except String Matcher :=
  if template.toList.all (·.toNat < 128) then do
    let re ← (engines.compile template).mapError ("compiling HostSNIRegexp matcher: " ++ ·)
    pure (.hostSNIRegexp re)
  else
    .error ("invalid value for HostSNIRegexp matcher, " ++ template.quote ++
      " is not a valid hostname")

def tcpFuncs (engines : Engines) : MatcherFuncs Matcher :=
  [("ALPN", expect1Parameter alpn),
   ("ClientIP", expect1Parameter (clientIP engines)),
   ("HostSNI", expect1Parameter hostSNI),
   ("HostSNIRegexp", expect1Parameter (hostSNIRegexp engines))]

/-! ## Runs -/

variable {call : M → ConnData → Bool × M} {sorter : RouteSorter M H} {m : Muxer M H}
  {parser parserV2 : MatcherFuncs M}

/-- The matchers of a route are those of its rule. -/
theorem compile_of_route {c : AddRoute H} {route : Route M H}
    (h : c.route call parser parserV2 = .ok route) :
    compile (kind call) (funcsOf parser parserV2 c.syntaxName) c.rule = .ok route.matchers := by
  obtain ⟨buildTree, hparse, h⟩ := ok_of_bind h
  obtain ⟨matchers, hadd, h⟩ := ok_of_bind h
  cases h
  rw [compile, ok_of_exceptMapError hparse]
  exact ok_of_exceptMapError hadd

open Route

theorem matchConn_eq (conn : ConnData) : m.matchConn call conn =
    ((((select (ask call conn) m.routes).1.map handler),
        ((select (ask call conn) m.routes).1.map catchAll).getD false),
      { m with routes := (select (ask call conn) m.routes).2 }) := by
  simp only [Muxer.matchConn]
  cases (select (ask call conn) m.routes).1 <;> rfl

theorem addRoute_eq (c : AddRoute H) : (m.addRoute call sorter c).2 =
    { m with
      routes := Dispatch.step sorter (AddRoute.route call m.parser m.parserV2) (ask call)
        m.routes (.add c) } := by
  cases hroute : c.route call m.parser m.parserV2 <;> simp [Muxer.addRoute, Dispatch.step, hroute]

theorem addRoute_error (c : AddRoute H) (err : String)
    (h : (m.addRoute call sorter c).1 = .error err) : (m.addRoute call sorter c).2 = m := by
  unfold Muxer.addRoute at h ⊢
  split at h
  · rfl
  · cases h

/-- The routes of a muxer are a table of priorities. -/
theorem step_eq (e : Event (AddRoute H) ConnData) : m.step call sorter e =
    { m with
      routes := Dispatch.step sorter (AddRoute.route call m.parser m.parserV2) (ask call)
        m.routes e } := by
  cases e with
  | add c => exact addRoute_eq c
  | serve conn => exact congrArg Prod.snd (matchConn_eq conn)

theorem run_routes (parser parserV2 : MatcherFuncs M) (calls : List (Event (AddRoute H) ConnData)) :
    Muxer.run call sorter parser parserV2 calls =
      { routes := Dispatch.run sorter (AddRoute.route call parser parserV2) (ask call) calls
        parser, parserV2 } :=
  List.foldl_hom (fun routes => Muxer.mk routes parser parserV2) fun _ e => step_eq e

/-- The routes after any calls: those of the calls of `AddRoute` that succeeded. -/
theorem run_stored (call : M → ConnData → Bool × M) (sorter : RouteSorter M H)
    (parser parserV2 : MatcherFuncs M) (calls : List (Event (AddRoute H) ConnData)) :
    Stored priority (ask call) (calls.filterMap (Event.entry (AddRoute.route call parser parserV2)))
      (Muxer.run call sorter parser parserV2 calls).routes := by
  rw [run_routes]
  exact Dispatch.run_stored (fun _ _ => rfl) calls

/-- The route that is found for a connection. -/
structure Matches (call : M → ConnData → Bool × M) (m : Muxer M H) (conn : ConnData) : Prop where
  matching : (∃ route ∈ m.routes, (route.ask call conn).1 = true) →
    ∃ route ∈ m.routes, (route.ask call conn).1 = true ∧
      (∀ other ∈ m.routes, (other.ask call conn).1 = true → other.priority ≤ route.priority) ∧
      (m.matchConn call conn).1 = (some route.handler, route.catchAll)
  default : (∀ route ∈ m.routes, (route.ask call conn).1 = false) →
    (m.matchConn call conn).1 = (none, false)

theorem matches_of_sorted (h : Sorted priority m.routes) (conn : ConnData) :
    Matches call m conn where
  matching := by
    intro hmatch
    obtain ⟨best, hbest, hmatches, hmax, hselect⟩ := exists_select h hmatch
    refine ⟨best, hbest, hmatches, hmax, ?_⟩
    rw [matchConn_eq, hselect]
    rfl
  default := by
    intro hnone
    rw [matchConn_eq, select_none_iff.mpr hnone]
    rfl

end Ingress.TcpMuxer
