import Ingress.Framework.Dispatch
import Ingress.Http.Path
import Ingress.Muxer.Matchers

/-! # The HTTP Muxer

    `pkg/muxer/http`: routes with rules and priorities, and the handler of the
    best route that matches a request.

    The matchers see the request with its routing path, in which the encoded
    characters that are not reserved have been decoded.

    * `Muxer.addRoute`, `Muxer.serveHTTP`: the code.
    * `withRoutingPath_ok`: every request has a routing path.
    * `Muxer.run_routes`: the routes of a run are kept as a table of priorities. -/

open Percent Outcome Dispatch Ingress.Rules Ingress.Muxer Ingress.RequestPath

namespace Ingress.HttpMuxer

/-- A request: what the muxer reads and writes of it, and the rest, which only its
    matchers and handlers read. -/
structure Request (R : Type) where
  url : URL
  routingPath : Option Bytes
  rest : R

variable {M R H : Type}

/-! ## Parsing -/

variable (call : M → Request R → Bool × M)

/-- The errors of `addRule`, and how a matcher is called. -/
def kind : Kind M (Request R) where
  call := call
  adding := fun matcher err => "error while adding rule " ++ matcher ++ ": " ++ err
  checking := fun matcher err => "error while checking rule " ++ matcher ++ ": " ++ err

/-- `SyntaxParser`: the functions of the two syntaxes. -/
structure SyntaxParser (M : Type) where
  v2 : MatcherFuncs M
  v3 : MatcherFuncs M

/-- `parsers[syntax]`, or the parser of `v3`. -/
def SyntaxParser.funcs (s : SyntaxParser M) (syntaxName : String) : MatcherFuncs M :=
  if syntaxName = "v2" then s.v2 else s.v3

def SyntaxParser.parse (call : M → Request R → Bool × M) (s : SyntaxParser M)
    (syntaxName rule : String) : Except String (MatchersTree M) := do
  let funcs := s.funcs syntaxName
  let buildTree ← (funcs.parser.parse rule).mapError ("parsing rule " ++ rule ++ ": " ++ ·)
  (addRule (kind call) funcs (buildTree ())).mapError ("adding rule " ++ rule ++ ": " ++ ·)

/-- `ParseDomains`, with the names of all matchers and `strings.ToLower`. -/
def parseDomains (toLower : String → String) (matchers : List String) (rule : String) :
    Except String (List String) := do
  let buildTree ← ((Rules.Parser.mk matchers).parse rule).mapError
    ("error while parsing rule " ++ rule ++ ": " ++ ·)
  pure ((buildTree ()).parseMatchers toLower ["Host"])

/-! ## The routing path -/

def reservedCharacters : List Bytes :=
  (ascii ":/?#[]@!$&'()*+,;=%").map encode

/-- What is written for an encoded character. -/
def decodeTriple (hi lo : UInt8) : Except String Bytes :=
  let encodedCharacter := [percent, hi, lo]
  if reservedCharacters.contains encodedCharacter then .ok encodedCharacter
  else
    match unescape encodedCharacter with
    | none => .error "invalid percent-encoding in URL path"
    | some decodedCharacter => .ok decodedCharacter

/-- The loop of `withRoutingPath`. -/
def decodeRoutingPath : Bytes → Except String Bytes
  | [] => .ok []
  | c :: s =>
    if c = percent then
      match s with
      | hi :: lo :: rest =>
        (decodeTriple hi lo).bind fun piece => (decodeRoutingPath rest).map (piece ++ ·)
      | _ => .error "invalid percent-encoding at the end of the URL path"
    else (decodeRoutingPath s).map (runeBytes c ++ ·)

def withRoutingPath (req : Request R) : Except String (Request R) := do
  let path ← decodeRoutingPath req.url.escapedPath
  pure { req with routingPath := some path }

/-! ## Routes -/

structure Route (M H : Type) where
  matchers : MatchersTree M
  handler : H
  priority : ℤ

open Route

/-- `sort.Sort`, of routes. -/
abbrev RouteSorter (M H : Type) := Sorter (priority (M := M) (H := H))

/-- Whether a route matches, and the route after it was asked. -/
def Route.ask (req : Request R) (route : Route M H) : Bool × Route M H :=
  ((route.matchers.matchOn (kind call) req).1,
    { route with matchers := (route.matchers.matchOn (kind call) req).2 })

structure Muxer (M H : Type) where
  routes : List (Route M H)
  parser : SyntaxParser M
  defaultHandler : H

/-- The arguments of `AddRoute`. -/
structure AddRoute (H : Type) where
  rule : String
  syntaxName : String
  priority : ℤ
  handler : H

def getRulePriority (rule : String) : ℤ :=
  rule.utf8ByteSize

/-- The route that `AddRoute` appends. -/
def AddRoute.route (parser : SyntaxParser M) (c : AddRoute H) : Except String (Route M H) := do
  let matchers ← (parser.parse call c.syntaxName c.rule).mapError
    ("error while parsing rule " ++ c.rule ++ ": " ++ ·)
  pure { matchers, handler := c.handler, priority := c.priority }

variable (sorter : RouteSorter M H)

def Muxer.addRoute (m : Muxer M H) (c : AddRoute H) : Except String Unit × Muxer M H :=
  match c.route call m.parser with
  | .error err => (.error err, m)
  | .ok route => (.ok (), { m with routes := sorter.sort (m.routes ++ [route]) })

/-- What becomes of a request: status 400, or the call of a handler. -/
inductive Response (R H : Type) where
  | badRequest
  | served (handler : H) (req : Request R)

def Muxer.serveHTTP (m : Muxer M H) (req : Request R) : Response R H × Muxer M H :=
  match withRoutingPath req with
  | .error _ => (.badRequest, m)
  | .ok req =>
    let (selected, routes) := select (ask call req) m.routes
    match selected with
    | some route => (.served route.handler req, { m with routes })
    | none => (.served m.defaultHandler req, { m with routes })

/-- The muxer after one call. -/
def Muxer.step (m : Muxer M H) : Event (AddRoute H) (Request R) → Muxer M H
  | .add c => (m.addRoute call sorter c).2
  | .serve req => (m.serveHTTP call req).2

/-- The muxer after any calls, `NewMuxer` being the first. -/
def Muxer.run (parser : SyntaxParser M)
    (defaultHandler : H) (calls : List (Event (AddRoute H) (Request R))) : Muxer M H :=
  calls.foldl (Muxer.step call sorter) { routes := [], parser, defaultHandler }

/-! ## Every request has a routing path -/

theorem escapedPath_write (u : URL) : ∃ ps, u.escapedPath = write ps := by
  unfold URL.escapedPath
  split
  next h => exact exists_write h.2.2
  next =>
    split
    · exact ⟨[.plain (chr '*') (by decide +kernel)], rfl⟩
    · exact ⟨_, escape_eq_write shouldEscape shouldEscape_percent u.path⟩

theorem decodeRoutingPath_plain {b : UInt8} (h : b ≠ percent) (s : Bytes) :
    decodeRoutingPath (b :: s) = (decodeRoutingPath s).map (runeBytes b ++ ·) := by
  rw [decodeRoutingPath.eq_def]
  simp [h]

theorem decodeTriple_ok {hi lo : UInt8} (hhi : ishex hi = true) (hlo : ishex lo = true) :
    ∃ piece, decodeTriple hi lo = .ok piece := by
  have hdecode : unescape [percent, hi, lo] = some [decode hi lo] :=
    unescape_write [.encoded hi lo hhi hlo]
  by_cases hrsv : reservedCharacters.contains [percent, hi, lo] = true
  · exact ⟨_, if_pos hrsv⟩
  · exact ⟨[decode hi lo], by simp only [decodeTriple, hrsv, hdecode]; rfl⟩

theorem decodeRoutingPath_write (ps : List Piece) :
    ∃ path, decodeRoutingPath (write ps) = .ok path := by
  induction ps with
  | nil => exact ⟨[], rfl⟩
  | cons p ps ih =>
    obtain ⟨path, hpath⟩ := ih
    cases p with
    | plain b h =>
      refine ⟨runeBytes b ++ path, ?_⟩
      rw [write_cons, Piece.bytes, List.singleton_append, decodeRoutingPath_plain h, hpath]
      rfl
    | encoded hi lo hhi hlo =>
      obtain ⟨piece, hpiece⟩ := decodeTriple_ok hhi hlo
      refine ⟨piece ++ path, ?_⟩
      simp [Piece.bytes, decodeRoutingPath, hpiece, hpath, Except.bind, Except.map]

/-- The request that the matchers see. -/
def routed (req : Request R) : Request R :=
  (withRoutingPath req).toOption.getD req

/-- The errors of `withRoutingPath` never happen. -/
theorem withRoutingPath_ok (req : Request R) : withRoutingPath req = .ok (routed req) := by
  obtain ⟨ps, hps⟩ := escapedPath_write req.url
  obtain ⟨path, hpath⟩ := decodeRoutingPath_write ps
  have hok : withRoutingPath req = .ok { req with routingPath := some path } := by
    rw [withRoutingPath, hps, hpath]
    rfl
  rw [routed, hok]
  rfl

/-- Whether a route matches when the muxer serves a request. -/
def serveRoute (req : Request R) (route : Route M H) : Bool × Route M H :=
  route.ask call (routed req)

/-! ## Runs -/

variable {call : M → Request R → Bool × M} {sorter : RouteSorter M H} {m : Muxer M H}

/-- A rule that was parsed was compiled. -/
theorem compile_of_parse {s : SyntaxParser M} {syn rule : String} {t : MatchersTree M}
    (h : s.parse call syn rule = .ok t) : compile (kind call) (s.funcs syn) rule = .ok t := by
  obtain ⟨buildTree, hparse, hadd⟩ := ok_of_bind h
  rw [compile, ok_of_exceptMapError hparse]
  exact ok_of_exceptMapError hadd

theorem parse_of_compile {s : SyntaxParser M} {syn rule : String} {t : MatchersTree M}
    (h : compile (kind call) (s.funcs syn) rule = .ok t) : s.parse call syn rule = .ok t := by
  obtain ⟨buildTree, hparse, hadd⟩ := ok_of_bind h
  rw [SyntaxParser.parse, hparse]
  exact congrArg (Except.mapError _) hadd

theorem serveHTTP_eq (req : Request R) : m.serveHTTP call req =
    (.served (((select (serveRoute call req) m.routes).1.map handler).getD
        m.defaultHandler) (routed req),
      { m with routes := (select (serveRoute call req) m.routes).2 }) := by
  simp only [Muxer.serveHTTP, withRoutingPath_ok,
    show ask call (routed req) = serveRoute call req from rfl]
  cases (select (serveRoute call req) m.routes).1 <;> rfl

theorem addRoute_eq (c : AddRoute H) : (m.addRoute call sorter c).2 =
    { m with
      routes := Dispatch.step sorter (AddRoute.route call m.parser) (serveRoute call) m.routes
        (.add c) } := by
  cases hroute : c.route call m.parser <;> simp [Muxer.addRoute, Dispatch.step, hroute]

theorem addRoute_error (c : AddRoute H) (err : String)
    (h : (m.addRoute call sorter c).1 = .error err) : (m.addRoute call sorter c).2 = m := by
  unfold Muxer.addRoute at h ⊢
  split at h
  · rfl
  · cases h

/-- The routes of a muxer are a table of priorities. -/
theorem step_eq (e : Event (AddRoute H) (Request R)) : m.step call sorter e =
    { m with
      routes := Dispatch.step sorter (AddRoute.route call m.parser) (serveRoute call) m.routes e } := by
  cases e with
  | add c => exact addRoute_eq c
  | serve req => exact congrArg Prod.snd (serveHTTP_eq req)

theorem run_routes (parser : SyntaxParser M) (defaultHandler : H)
    (calls : List (Event (AddRoute H) (Request R))) :
    Muxer.run call sorter parser defaultHandler calls =
      { routes := Dispatch.run sorter (AddRoute.route call parser) (serveRoute call) calls
        parser, defaultHandler } :=
  List.foldl_hom (fun routes => Muxer.mk routes parser defaultHandler) fun _ e => step_eq e

/-- The routes after any calls: those of the calls of `AddRoute` that succeeded. -/
theorem run_stored (call : M → Request R → Bool × M) (sorter : RouteSorter M H)
    (parser : SyntaxParser M) (defaultHandler : H) (calls : List (Event (AddRoute H) (Request R))) :
    Stored priority (serveRoute call) (calls.filterMap (Event.entry (AddRoute.route call parser)))
      (Muxer.run call sorter parser defaultHandler calls).routes := by
  rw [run_routes]
  exact Dispatch.run_stored (fun _ _ => rfl) calls

/-- The route a request is served by, of routes that are sorted. -/
structure Serves (call : M → Request R → Bool × M) (m : Muxer M H) (req : Request R) : Prop where
  matching : (∃ route ∈ m.routes, (serveRoute call req route).1 = true) →
    ∃ route ∈ m.routes, (serveRoute call req route).1 = true ∧
      (∀ other ∈ m.routes, (serveRoute call req other).1 = true →
        other.priority ≤ route.priority) ∧
      (m.serveHTTP call req).1 = .served route.handler (routed req)
  default : (∀ route ∈ m.routes, (serveRoute call req route).1 = false) →
    (m.serveHTTP call req).1 = .served m.defaultHandler (routed req)

theorem serves_of_sorted (h : Sorted priority m.routes) (req : Request R) : Serves call m req where
  matching := by
    intro hmatch
    obtain ⟨best, hbest, hmatches, hmax, hselect⟩ := exists_select h hmatch
    refine ⟨best, hbest, hmatches, hmax, ?_⟩
    rw [serveHTTP_eq, hselect]
    rfl
  default := by
    intro hnone
    rw [serveHTTP_eq, select_none_iff.mpr hnone]
    rfl

end Ingress.HttpMuxer
