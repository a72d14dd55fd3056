import Ingress.Muxer.Http

/-! # The Matchers of HTTP Rules

    `pkg/muxer/http/matcher.go`: the functions that build the matchers of the
    default syntax.  None of these matchers changes what it has captured.

    Regular expressions, checkers of addresses and Unicode are those of the standard
    library, given as `Engines`.

    * `httpFuncs`: the code.
    * `meaning`: what a call asks about a request.
    * `matchOn_meaning`: the tree of a rule matches a request exactly when the
      expression of the rule is true of it. -/

open BoolExpr Percent Outcome Ingress.Rules Ingress.Muxer

namespace Ingress.HttpMuxer

/-- What the matchers read of a request besides its path: the address that
    `RemoteAddrStrategy` gets, the method, the two hosts that the request decorator
    stores, the headers and the query. -/
structure Context where
  remoteIP : String
  method : String
  canonizedHost : String
  cnameFlatten : String
  header : String → List String
  query : String → Option (List String)

abbrev Matcher := Request Context → Bool

def Matcher.call (m : Matcher) (req : Request Context) : Bool × Matcher :=
  (m req, m)

/-- `MatchString`, of a text, and of a path, which need not be one. -/
structure Regexp where
  matchString : String → Bool
  matchBytes : Bytes → Bool

/-- What the matchers take from other packages. -/
structure Engines where
  toUpper : String → String
  equalFold : String → String → Bool
  canonicalHeaderKey : String → String
  newChecker : List String → Except String (String → Except String Bool)
  compile : String → Except String Regexp

/-! ## The code -/

/-- The bytes of a text. -/
def utf8 (s : String) : Bytes :=
  s.toUTF8.data.toList

/-- `s[i]`. -/
def arg (s : List String) (i : ℕ) : String :=
  s.getD i ""

def expectNParameters (fn : List String → Except String Matcher) (n : List ℕ)
    (s : List String) : Except String Matcher :=
  if s.length ∈ n then fn s
  else .error ("unexpected number of parameters; got " ++ toString s.length ++
    ", expected one of [" ++ " ".intercalate (n.map toString) ++ "]")

def isASCII (s : String) : Bool :=
  s.toList.all fun c => c.toNat < 128

variable (engines : Engines)

def clientIP (s : List String) : Except String Matcher := do
  let checker ← (engines.newChecker s).mapError
    ("initializing IP checker for ClientIP matcher: " ++ ·)
  pure fun req => (checker req.rest.remoteIP).toOption.getD false

def method (engines : Engines) (s : List String) : Except String Matcher :=
  .ok fun req => engines.toUpper (arg s 0) = req.rest.method

/-- The matcher that `host` builds for a host in lower case. -/
def hostMatcher (host : String) : Matcher := fun req =>
  let reqHost := req.rest.canonizedHost
  if reqHost = "" then false
  else if reqHost = host then true
  else if req.rest.cnameFlatten ≠ "" then engines.equalFold req.rest.cnameFlatten host
  -- a period at the end of the host, or of that of the request
  else host = reqHost ++ "." || reqHost = host ++ "."

/-- `host`.  The lower case of an ASCII text is that of its ASCII letters. -/
def host (s : List String) : Except String Matcher :=
  if isASCII (arg s 0) then .ok (hostMatcher engines (arg s 0).toLower)
  else .error ("invalid value " ++ (arg s 0).quote ++
    " for Host matcher, non-ASCII characters are not allowed")

def hostRegexp (s : List String) : Except String Matcher := do
  if !isASCII (arg s 0) then
    throw ("invalid value " ++ (arg s 0).quote ++
      " for HostRegexp matcher, non-ASCII characters are not allowed")
  let re ← (engines.compile (arg s 0)).mapError ("compiling HostRegexp matcher: " ++ ·)
  pure fun req => re.matchString req.rest.canonizedHost || re.matchString req.rest.cnameFlatten

/-- A matcher of the routing path, when there is one. -/
def onRoutingPath (test : Bytes → Bool) : Matcher := fun req =>
  req.routingPath.any test

/-- The matchers of a path that starts with a slash. -/
def slashPath (test : Bytes → Bytes → Bool) (path : String) : Except String Matcher :=
  if "/".isPrefixOf path then .ok (onRoutingPath (test (utf8 path)))
  else .error ("path " ++ path.quote ++ " does not start with a '/'")

def path (s : List String) : Except String Matcher :=
  slashPath (fun path routingPath => routingPath = path) (arg s 0)

def pathPrefix (s : List String) : Except String Matcher :=
  slashPath (fun path routingPath => path.isPrefixOf routingPath) (arg s 0)

/-- `pathRegexp`.  The error names another matcher, as in the source. -/
def pathRegexp (s : List String) : Except String Matcher := do
  let re ← (engines.compile (arg s 0)).mapError ("compiling PathPrefix matcher: " ++ ·)
  pure (onRoutingPath re.matchBytes)

def header (engines : Engines) (s : List String) : Except String Matcher :=
  .ok fun req => arg s 1 ∈ req.rest.header (engines.canonicalHeaderKey (arg s 0))

def headerRegexp (s : List String) : Except String Matcher := do
  let re ← (engines.compile (arg s 1)).mapError ("compiling HeaderRegexp matcher: " ++ ·)
  pure fun req => (req.rest.header (engines.canonicalHeaderKey (arg s 0))).any re.matchString

/-- `query`.  Without a second argument, the value is empty. -/
def query (s : List String) : Except String Matcher :=
  .ok fun req => (req.rest.query (arg s 0)).any fun values => arg s 1 ∈ values

def queryRegexp (s : List String) : Except String Matcher :=
  if s.length = 1 then query s
  else do
    let re ← (engines.compile (arg s 1)).mapError ("compiling QueryRegexp matcher: " ++ ·)
    pure fun req => (req.rest.query (arg s 0)).any fun values => values.any re.matchString

def httpFuncs : MatcherFuncs Matcher :=
  [("ClientIP", expectNParameters (clientIP engines) [1]),
   ("Method", expectNParameters (method engines) [1]),
   ("Host", expectNParameters (host engines) [1]),
   ("HostRegexp", expectNParameters (hostRegexp engines) [1]),
   ("Path", expectNParameters path [1]),
   ("PathRegexp", expectNParameters (pathRegexp engines) [1]),
   ("PathPrefix", expectNParameters pathPrefix [1]),
   ("Header", expectNParameters (header engines) [2]),
   ("HeaderRegexp", expectNParameters (headerRegexp engines) [2]),
   ("Query", expectNParameters query [1, 2]),
   ("QueryRegexp", expectNParameters (queryRegexp engines) [1, 2])]

/-! ## The meaning of a rule -/

/-- What a call asks about a request; nothing when no matcher can be built. -/
def meaning (req : Request Context) (c : Call) : Bool :=
  (((httpFuncs engines).parser.function c.name).bind fun name =>
    (buildMatcher (httpFuncs engines) name c.args).toOption).any (· req)

variable {engines : Engines}

def matcherNames : List String :=
  ["ClientIP", "Method", "Host", "HostRegexp", "Path", "PathRegexp", "PathPrefix", "Header",
    "HeaderRegexp", "Query", "QueryRegexp"]

theorem function_eq {name : String} (h : name ∈ matcherNames) :
    (httpFuncs engines).parser.function name = some name := by
  have hparser : (httpFuncs engines).parser = ⟨matcherNames⟩ := rfl
  have hall : ∀ name ∈ matcherNames,
      (Rules.Parser.mk matcherNames).function name = some name := by decide +kernel
  exact hall name h

open Matcher

theorem BuiltFor.meaning {c : Call} {m : Matcher}
    (h : BuiltFor (kind call) (httpFuncs engines) c m) (req : Request Context) :
    HttpMuxer.meaning engines req c = m req := by
  induction h with
  | built hname hbuild => simp [HttpMuxer.meaning, hname, hbuild, Except.toOption]
  | called pre req' ih => exact ih

/-- **Matching**: the tree of a rule matches a request exactly when the expression of
    the rule is true of it. -/
theorem matchOn_meaning {rule : String} {t : MatchersTree Matcher}
    (h : compile (kind call) (httpFuncs engines) rule = .ok t) {e : Expr Call}
    (hread : read rule = some e) (req : Request Context) :
    (t.matchOn (kind call) req).1 = e.value (meaning engines req) := by
  obtain ⟨e', d, hread', hd, hmatch⟩ := matchOn_compiled h []
  obtain rfl : e' = e := Option.some.inj (hread'.symm.trans hread)
  have hanswers : d.All fun x => meaning engines req x.1 = Leaf.answer (kind call) req x :=
    hd.matchers.imp fun x hx => BuiltFor.meaning hx req
  rw [← hd.calls, Expr.value_map, Expr.value_congr hanswers]
  exact hmatch req

end Ingress.HttpMuxer
