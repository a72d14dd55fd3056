import Ingress.Gateway.Listeners
import Ingress.Muxer.HttpFuncs

/-! # Rules of HTTP Routes

    `buildMatchRule` writes the rule of a match of an HTTPRoute: the hostnames, then
    `&&` and what the match asks for.  The strings of the match are inserted between
    back quotes as they are, so a string with a back quote in it goes on as a part of
    the rule; and `||` binds less than the `&&` after the hostnames.

    * `buildMatchRule`: the code.
    * `read_buildMatchRule`: the rule is that of the match, with the hostnames in front
      of its first alternative.
    * `confined_iff`: when the rule matches nothing but requests for the hostnames.
    * `precedes_iff`: when a match that precedes another has the greater priority. -/

open List BoolExpr Ingress.Rules Ingress.Muxer Ingress.HttpMuxer

namespace Ingress.Gateway

/-! ## The code -/

inductive PathMatchType where
  | exact
  | pathPrefix
  | regularExpression
  | other (name : String)
  deriving DecidableEq, Repr

structure HTTPPathMatch where
  type : Option PathMatchType
  value : Option String
  deriving DecidableEq, Repr

/-- `HeaderMatchType` and `QueryParamMatchType`. -/
inductive ValueMatchType where
  | exact
  | regularExpression
  | other (name : String)
  deriving DecidableEq, Repr

/-- `HTTPHeaderMatch` and `HTTPQueryParamMatch`. -/
structure ValueMatch where
  type : Option ValueMatchType
  name : String
  value : String
  deriving DecidableEq, Repr

structure HTTPRouteMatch where
  path : Option HTTPPathMatch
  method : Option String
  headers : List ValueMatch
  queryParams : List ValueMatch
  deriving DecidableEq, Repr

def quoteMeta (cs : List Char) : List Char :=
  cs.flatMap fun c => if c ∈ "\\.+*?()|[]\x7b\x7d^$".toList then ['\\', c] else [c]

/-- `strings.Replace(s, old, new, 1)`. -/
def replaceFirst (old new : List Char) : List Char → List Char
  | [] => []
  | c :: cs =>
    if old.isPrefixOf (c :: cs) then new ++ (c :: cs).drop old.length
    else c :: replaceFirst old new cs

/-- The rule of one hostname. -/
def hostRule (host : String) : String :=
  if wildcards host = 0 then "Host(`" ++ host ++ "`)"
  else
    let pattern := replaceFirst "\\*\\.".toList "[a-z0-9-\\.]+\\.".toList (quoteMeta host.toList)
    "HostRegexp(`^" ++ String.ofList pattern ++ "$`)"

def buildHostRule (hostnames : List Hostname) : String × ℕ :=
  let rules := hostnames.map fun hostname => hostRule hostname.text
  let priority := hostnames.foldl (fun priority hostname =>
    if priority < hostname.text.utf8ByteSize then hostname.text.utf8ByteSize else priority) 0
  match rules with
  | [] => ("", 0)
  | [rule] => (rule, priority)
  | rules => ("(" ++ " || ".intercalate rules ++ ")", priority)

/-- `strings.TrimSuffix(s, "/")`. -/
def trimSlash (s : String) : String :=
  if s.toList.getLast? = some '/' then String.ofList s.toList.dropLast else s

def buildPathRule (pathMatch : HTTPPathMatch) : String × ℕ :=
  let pathValue := pathMatch.value.getD "/"
  match pathMatch.type.getD .pathPrefix with
  | .exact => ("Path(`" ++ pathValue ++ "`)", 100000)
  | .pathPrefix =>
    -- PathPrefix(`/`) rule is a catch-all, evaluated last
    if pathValue = "/" then ("PathPrefix(`/`)", 1)
    else
      let pv := trimSlash pathValue
      ("(Path(`" ++ pv ++ "`) || PathPrefix(`" ++ pv ++ "/`))",
        10000 + pathValue.utf8ByteSize * 100)
  | .regularExpression =>
    ("PathRegexp(`" ++ pathValue ++ "`)", 10000 + pathValue.utf8ByteSize * 100)
  | .other _ => ("PathPrefix(`/`)", 1)

/-- The rules of headers or query parameters: the matcher of each type, and what one
    adds to the priority. -/
def buildValueRules (exact regularExpression : String) (each : ℕ) (ms : List ValueMatch) :
    List String × ℕ :=
  let rule (matcher : String) (m : ValueMatch) : String :=
    matcher ++ "(`" ++ m.name ++ "`,`" ++ m.value ++ "`)"
  (ms.filterMap fun m =>
    match m.type.getD .exact with
    | .exact => some (rule exact m)
    | .regularExpression => some (rule regularExpression m)
    | .other _ => none, each * ms.length)

def buildHeaderRules (headers : List ValueMatch) : List String × ℕ :=
  buildValueRules "Header" "HeaderRegexp" 100 headers

def buildQueryParamRules (queryParams : List ValueMatch) : List String × ℕ :=
  buildValueRules "Query" "QueryRegexp" 10 queryParams

/-- The path of a match, or the default. -/
def HTTPRouteMatch.pathOf (m : HTTPRouteMatch) : HTTPPathMatch :=
  m.path.getD { type := some .pathPrefix, value := some "/" }

/-- `matchRules` of `buildMatchRule`, joined. -/
def matchRules (m : HTTPRouteMatch) : String :=
  " && ".intercalate ((buildPathRule m.pathOf).1 ::
    (m.method.map fun method => "Method(`" ++ method ++ "`)").toList ++
    (buildHeaderRules m.headers).1 ++ (buildQueryParamRules m.queryParams).1)

/-- The priority of the match without its hostnames. -/
def matchPriority (m : HTTPRouteMatch) : ℕ :=
  (buildPathRule m.pathOf).2 + (if m.method.isSome then 1000 else 0) +
    (buildHeaderRules m.headers).2 + (buildQueryParamRules m.queryParams).2

def buildMatchRule (hostnames : List Hostname) (m : HTTPRouteMatch) : String × ℕ :=
  let (hostRule, hostPriority) := buildHostRule hostnames
  if hostRule = "" then (matchRules m, matchPriority m)
  -- a route with a host should match over the same route with no host
  else (hostRule ++ " && " ++ matchRules m, matchPriority m + hostPriority)

/-! ## Requests and hostnames -/

/-- The pattern of the subdomains of a domain. -/
def wildcardPattern (domain : List Char) : String :=
  "^" ++ String.ofList ("[a-z0-9-\\.]+\\.".toList ++ quoteMeta domain) ++ "$"

/-- The standard library, with what it does for the patterns of subdomains; and the
    matchers of the other syntax. -/
structure Env where
  engines : Engines
  funcsV2 : MatcherFuncs Matcher
  wildcard : ∀ domain, (∀ c ∈ domain, isHostChar c = true) →
    ∃ re, engines.compile (wildcardPattern domain) = .ok re ∧
      ∀ t, re.matchString t = true ↔
        ∃ p ≠ [], (∀ c ∈ p, isHostChar c = true) ∧ t.toList = p ++ '.' :: domain

/-- The parsers of the muxer. -/
def Env.parser (env : Env) : SyntaxParser Matcher where
  v2 := env.funcsV2
  v3 := httpFuncs env.engines

/-- The names of the host of a request: the host itself, with or without a period at
    its end, and the one it is flattened to. -/
inductive HostName (env : Env) (ctx : Context) : String → Prop where
  | canonized : HostName env ctx ctx.canonizedHost
  | period {t : String} (h : ctx.canonizedHost = t ++ "." ∨ t = ctx.canonizedHost ++ ".") :
      HostName env ctx t
  | flattened : HostName env ctx ctx.cnameFlatten
  | folded {t : String} (h : env.engines.equalFold ctx.cnameFlatten t = true) : HostName env ctx t

/-- The hostname is `t`, or has it below its wildcard. -/
def Hostname.Covers (h : Hostname) (t : String) : Prop :=
  t = h.text ∨
    ∃ p domain, h.text.toList = '*' :: '.' :: domain ∧ p ≠ [] ∧ t.toList = p ++ '.' :: domain

/-- The host of a request matches one of the hostnames. -/
def HostMatches (env : Env) (hostnames : List Hostname) (req : Request Context) : Prop :=
  ∃ h ∈ hostnames, ∃ t, HostName env req.rest t ∧ h.Covers t

open Matcher

/-- If the rule of the match parses, it matches requests for the hostnames only. -/
def Confined (env : Env) (hostnames : List Hostname) (m : HTTPRouteMatch) : Prop :=
  ∀ t, env.parser.parse call "default" (buildMatchRule hostnames m).1 = .ok t →
    ∀ req, (t.matchOn (kind call) req).1 = true → HostMatches env hostnames req

/-! ## The rule of the hostnames -/

/-- The call that asks for a hostname. -/
def hostCall (h : Hostname) : Call :=
  if wildcards h.text = 0 then ⟨"Host", [h.text]⟩
  else ⟨"HostRegexp", [wildcardPattern (h.text.toList.drop 2)]⟩

open Expr

/-- The expression that asks for one of several hostnames. -/
def hostExpr (h : Hostname) (hs : List Hostname) : Expr Call :=
  match hs with
  | [] => .leaf (hostCall h)
  | hs => .paren ((leaf (hostCall h)).disj (hs.map fun h => .leaf (hostCall h)))

variable {cs : List Char}

theorem isHostChar_of_isDomain (h : isDomain cs = true) : ∀ c ∈ cs, isHostChar c = true :=
  all_eq_true.mp ((Bool.and_eq_true _ _).mp h).1

theorem ne_nil_of_isDomain (h : isDomain cs = true) : cs ≠ [] := by
  rintro rfl
  exact absurd h (by decide)

theorem hostCall_domain {h : Hostname} (hstar : '*' ∉ h.text.toList) :
    hostCall h = ⟨"Host", [h.text]⟩ :=
  if_pos (count_eq_zero.mpr hstar)

variable {domain : List Char}

theorem hostCall_wildcard {h : Hostname} (heq : h.text.toList = '*' :: '.' :: domain) :
    hostCall h = ⟨"HostRegexp", [wildcardPattern domain]⟩ := by
  simp [hostCall, wildcards, heq]

theorem quoteMeta_wildcard (domain : List Char) :
    quoteMeta ('*' :: '.' :: domain) = "\\*\\.".toList ++ quoteMeta domain := by
  have hstar : quoteMeta ['*', '.'] = "\\*\\.".toList := by decide +kernel
  exact @List.flatMap_append _ _ ['*', '.'] domain _

theorem replaceFirst_prefix {old : List Char} (hne : old ≠ []) (new rest : List Char) :
    replaceFirst old new (old ++ rest) = new ++ rest := by
  cases old with
  | nil => exact absurd rfl hne
  | cons c cs => simp [replaceFirst]

/-- The pattern that is written for a hostname with a wildcard. -/
theorem replaceFirst_wildcard (domain : List Char) :
    replaceFirst "\\*\\.".toList "[a-z0-9-\\.]+\\.".toList (quoteMeta ('*' :: '.' :: domain)) =
      "[a-z0-9-\\.]+\\.".toList ++ quoteMeta domain := by
  rw [quoteMeta_wildcard, replaceFirst_prefix (by simp)]

variable (h : Hostname)

/-- The rule of a hostname is the text of its call. -/
theorem hostRule_eq : hostRule h.text = String.ofList (textOf (.leaf (hostCall h))) := by
  obtain ⟨_, hstar⟩ | ⟨dom, heq, _⟩ := h.shape
  · have hzero : wildcards h.text = 0 := count_eq_zero.mpr hstar
    rw [hostCall_domain hstar, textOf_call, hostRule, if_pos hzero]
    rfl
  · have hone : wildcards h.text ≠ 0 := by simp [wildcards, heq]
    have hfront : "HostRegexp(`^" = "HostRegexp" ++ "(`" ++ "^" := rfl
    have hback : "$`)" = "$" ++ "`)" := rfl
    rw [hostCall_wildcard heq, textOf_call, hostRule, if_neg hone, heq, replaceFirst_wildcard,
      wildcardPattern, hfront, hback]
    simp only [String.append_assoc]

/-- A character that a rule can have in a string. -/
def isSafe (c : Char) : Bool :=
  c.toNat < 128 && c ≠ '`' && c ≠ '\r' && !isIllegal c

theorem isSafe_of_isHostChar {c : Char} (h : isHostChar c = true) : isSafe c = true := by
  have hascii : c.toNat < 128 := by
    simp only [isHostChar, Bool.or_eq_true, Bool.and_eq_true, decide_eq_true_eq, Char.le_def,
      UInt32.le_iff_toNat_le] at h
    obtain ((⟨_, h⟩ | ⟨_, h⟩) | rfl) | rfl := h
    · exact Nat.lt_of_le_of_lt h (by decide)
    · exact Nat.lt_of_le_of_lt h (by decide)
    · decide
    · decide
  have hother : ∀ c', isHostChar c' = false → c ≠ c' := by
    rintro c' hc' rfl
    exact absurd h (by rw [hc']; decide)
  simp [isSafe, hascii, isIllegal, hother '`' (by decide), hother '\r' (by decide),
    hother '\x00' (by decide), hother '\uFEFF' (by decide)]

theorem mem_quoteMeta {c : Char} (h : c ∈ quoteMeta cs) : c = '\\' ∨ c ∈ cs := by
  obtain ⟨c', hc', hmem⟩ := mem_flatMap.mp h
  split at hmem
  · rcases mem_cons.mp hmem with rfl | hmem
    · exact .inl rfl
    · exact .inr (mem_singleton.mp hmem ▸ hc')
  · exact .inr (mem_singleton.mp hmem ▸ hc')

theorem isSafe_wildcardPattern (h : ∀ c ∈ domain, isHostChar c = true) :
    ∀ c ∈ (wildcardPattern domain).toList, isSafe c = true := by
  have hclass : ∀ c ∈ "[a-z0-9-\\.]+\\.".toList, isSafe c = true := by simp [isSafe, isIllegal]
  have hends : isSafe '^' = true ∧ isSafe '$' = true ∧ isSafe '\\' = true := by decide
  intro c hc
  simp only [wildcardPattern, String.toList_append, String.toList_ofList, mem_append] at hc
  obtain (hc | hc | hc) | hc := hc
  · exact mem_singleton.mp hc ▸ hends.1
  · exact hclass c hc
  · obtain rfl | hc := mem_quoteMeta hc
    · exact hends.2.2
    · exact isSafe_of_isHostChar (h c hc)
  · exact mem_singleton.mp hc ▸ hends.2.1

section SafeArgument

variable {name arg : String}

theorem isPlain_of_safe (hname : isName name = true) (hsafe : ∀ x ∈ arg.toList, isSafe x = true) :
    (⟨name, [arg]⟩ : Call).isPlain = true := by
  have hquote : ∀ x ∈ arg.toList, x ≠ '`' := fun x hx => by
    have hx := hsafe x hx
    simp only [isSafe, Bool.and_eq_true, decide_eq_true_eq] at hx
    exact hx.1.1.2
  simpa [Call.isPlain, hname] using hquote

section
variable (hsafe : ∀ x ∈ arg.toList, isSafe x = true)
include hsafe

theorem isLegal_of_safe : (⟨name, [arg]⟩ : Call).isLegal = true := by
  have hlegal : ∀ x ∈ arg.toList, isIllegal x = false := fun x hx => by
    have hx := hsafe x hx
    simp only [isSafe, Bool.and_eq_true, Bool.not_eq_true'] at hx
    exact hx.2
  simpa [Call.isLegal] using hlegal

theorem raw_of_safe : (⟨name, [arg]⟩ : Call).raw = ⟨name, [arg]⟩ := by
  have hreturn : '\r' ∉ arg.toList := fun hmem => absurd (hsafe _ hmem) (by decide)
  simp [Call.raw, rawValue_eq hreturn]

theorem isASCII_of_safe : isASCII arg = true := by
  refine all_eq_true.mpr fun x hx => ?_
  have hx := hsafe x hx
  simp only [isSafe, Bool.and_eq_true] at hx
  exact hx.1.1.1

end

end SafeArgument

/-- A call of `Host` or `HostRegexp` with one argument that is safe. -/
structure SafeCall (c : Call) (arg : String) : Prop where
  name : c.name ∈ ["Host", "HostRegexp"]
  args : c.args = [arg]
  nonempty : arg ≠ ""
  safe : ∀ x ∈ arg.toList, isSafe x = true

theorem exists_safeCall : ∃ arg, SafeCall (hostCall h) arg := by
  obtain ⟨hdom, hstar⟩ | ⟨dom, heq, hdom⟩ := h.shape
  · refine ⟨h.text, ?_⟩
    rw [hostCall_domain hstar]
    refine ⟨by simp, rfl, fun hempty => ?_, fun c hc => ?_⟩
    · exact ne_nil_of_isDomain hdom (by simp [hempty])
    · exact isSafe_of_isHostChar (isHostChar_of_isDomain hdom c hc)
  · refine ⟨wildcardPattern dom, ?_⟩
    rw [hostCall_wildcard heq]
    refine ⟨by simp, rfl, fun hempty => ?_, ?_⟩
    · have htext := congrArg String.toList hempty
      simp [wildcardPattern] at htext
    · exact isSafe_wildcardPattern (isHostChar_of_isDomain hdom)

section Safe

variable {c : Call} {arg : String}

theorem SafeCall.eq (h : SafeCall c arg) : c = ⟨c.name, [arg]⟩ := by
  rw [← h.args]

theorem SafeCall.isPlain (h : SafeCall c arg) : c.isPlain = true := by
  have hnames : ∀ name ∈ ["Host", "HostRegexp"], isName name = true := by decide +kernel
  rw [h.eq]
  exact isPlain_of_safe (hnames c.name h.name) h.safe

theorem SafeCall.isLegal (h : SafeCall c arg) : c.isLegal = true := by
  rw [h.eq]
  exact isLegal_of_safe h.safe

theorem SafeCall.raw (h : SafeCall c arg) : c.raw = c := by
  rw [h.eq]
  exact raw_of_safe h.safe

theorem SafeCall.isASCII (h : SafeCall c arg) : isASCII arg = true := isASCII_of_safe h.safe

theorem SafeCall.checkRule (h : SafeCall c arg) (name : String) :
    Rules.checkRule name c.args = .ok () := by
  simp [Rules.checkRule, h.args, Ne.symm h.nonempty]

end Safe

variable {env : Env}

theorem toLower_isHostChar {c : Char} (h : isHostChar c = true) : c.toLower = c := by
  have hupper : ¬ (c.val ≥ 'A'.val ∧ c.val ≤ 'Z'.val) := by
    simp only [isHostChar, Bool.or_eq_true, Bool.and_eq_true, decide_eq_true_eq, Char.le_def,
      ge_iff_le, UInt32.le_iff_toNat_le] at h ⊢
    obtain ((⟨hle, _⟩ | ⟨_, hle⟩) | rfl) | rfl := h
    · exact fun hupper => absurd (hle.trans hupper.2) (by decide)
    · exact fun hupper => absurd (hupper.1.trans hle) (by decide)
    · decide
    · decide
  exact dif_neg hupper

theorem toLower_domain {s : String} (h : ∀ c ∈ s.toList, isHostChar c = true) : s.toLower = s := by
  have hmap : s.toList.map Char.toLower = s.toList.map id :=
    map_congr_left fun c hc => toLower_isHostChar (h c hc)
  have hlower : s.toLower = s.map .toLower := rfl
  apply String.toList_injective
  simpa [hlower] using hmap

theorem meaning_eq {engines : Engines} {c : Call} (hname : c.name ∈ matcherNames) {m : Matcher}
    (hbuild : buildMatcher (httpFuncs engines) c.name c.args = .ok m) (req : Request Context) :
    meaning engines req c = m req := by
  simp [meaning, function_eq hname, hbuild, Except.toOption]

variable {t : String}

theorem buildMatcher_host (h : isASCII t = true) :
    buildMatcher (httpFuncs env.engines) "Host" [t] = .ok (hostMatcher env.engines t.toLower) := by
  have hlook : (httpFuncs env.engines).lookup "Host" =
      some (expectNParameters (host env.engines) [1]) := rfl
  rw [buildMatcher, hlook]
  simp [expectNParameters, host, arg, h]

theorem buildMatcher_hostRegexp {re : Regexp} (h : isASCII t = true)
    (hre : env.engines.compile t = .ok re) :
    buildMatcher (httpFuncs env.engines) "HostRegexp" [t] = .ok fun req =>
      re.matchString req.rest.canonizedHost || re.matchString req.rest.cnameFlatten := by
  have hlook : (httpFuncs env.engines).lookup "HostRegexp" =
      some (expectNParameters (hostRegexp env.engines) [1]) := rfl
  rw [buildMatcher, hlook]
  simp [expectNParameters, hostRegexp, arg, h, hre]
  rfl

/-- What a `Host` matcher matches are names of the host. -/
theorem hostName_of_hostMatcher {req : Request Context}
    (h : hostMatcher env.engines t req = true) : HostName env req.rest t := by
  simp only [hostMatcher] at h
  split at h
  next => cases h
  next =>
    split at h
    next heq => exact heq ▸ .canonized
    next =>
      split at h
      next => exact .folded h
      next =>
        rw [Bool.or_eq_true, decide_eq_true_eq, decide_eq_true_eq] at h
        exact .period h.symm

/-- The matcher of a hostname can be built, and matches requests for it only. -/
theorem hostCall_matches (env : Env) (h : Hostname) : Buildable (httpFuncs env.engines) (hostCall h) ∧
    ∀ req, meaning env.engines req (hostCall h) = true →
      ∃ t, HostName env req.rest t ∧ h.Covers t := by
  obtain ⟨arg, hsafe⟩ := exists_safeCall h
  have hcheck := hsafe.checkRule (hostCall h).name
  have hascii := hsafe.isASCII
  obtain ⟨hdom, hstar⟩ | ⟨dom, heq, hdom⟩ := h.shape
  · have hchars := isHostChar_of_isDomain hdom
    rw [hostCall_domain hstar] at hsafe hcheck ⊢
    obtain rfl : h.text = arg := singleton_inj.mp hsafe.args
    have hname : "Host" ∈ matcherNames := by decide
    have hbuild := @buildMatcher_host env h.text hascii
    refine ⟨⟨"Host", _, function_eq hname, hcheck, hbuild⟩, fun req hm => ⟨h.text, ?_, .inl rfl⟩⟩
    rw [meaning_eq (c := ⟨"Host", [h.text]⟩) hname hbuild, toLower_domain hchars] at hm
    exact hostName_of_hostMatcher hm
  · have hchars := isHostChar_of_isDomain hdom
    rw [hostCall_wildcard heq] at hsafe hcheck ⊢
    obtain rfl : wildcardPattern dom = arg := singleton_inj.mp hsafe.args
    have hname : "HostRegexp" ∈ matcherNames := by decide
    obtain ⟨re, hre, hmatch⟩ := env.wildcard dom hchars
    have hbuild := buildMatcher_hostRegexp hascii hre
    have hcovers : ∀ t, re.matchString t = true → h.Covers t := fun t ht => by
      obtain ⟨p, hp, _, htext⟩ := (hmatch t).mp ht
      exact .inr ⟨p, dom, heq, hp, htext⟩
    refine ⟨⟨"HostRegexp", _, function_eq hname, hcheck, hbuild⟩, fun req hm => ?_⟩
    rw [meaning_eq (c := ⟨"HostRegexp", [wildcardPattern dom]⟩) hname hbuild, Bool.or_eq_true] at hm
    obtain hm | hm := hm
    · exact ⟨_, .canonized, hcovers _ hm⟩
    · exact ⟨_, .flattened, hcovers _ hm⟩

theorem all_hostExpr {P : Call → Prop} (hs : List Hostname)
    (hP : ∀ h, P (hostCall h)) : (hostExpr h hs).All P := by
  cases hs with
  | nil => exact hP h
  | cons h' hs =>
    refine all_disj.mpr (forall_mem_cons.mpr ⟨hP h, fun e he => ?_⟩)
    obtain ⟨x, _, rfl⟩ := mem_map.mp he
    exact hP x

theorem hostExpr_grouped (hs : List Hostname) :
    (hostExpr h hs).rank = 2 ∧ (hostExpr h hs).Grouped := by
  cases hs with
  | nil => exact ⟨rfl, trivial⟩
  | cons h' hs =>
    refine ⟨rfl, grouped_disj trivial fun e he => ?_⟩
    obtain ⟨x, _, rfl⟩ := mem_map.mp he
    exact ⟨Nat.le_succ 1, trivial⟩

theorem hostExpr_value (v : Call → Bool) (h : Hostname) (hs : List Hostname) :
    (hostExpr h hs).value v = (h :: hs).any fun h => v (hostCall h) := by
  cases hs with
  | nil => simp [hostExpr, value]
  | cons h' hs =>
    simp [hostExpr, value, value_disj, any_map, Function.comp_def]

/-- The rule of the hostnames is the text of their expression. -/
theorem buildHostRule_eq (hs : List Hostname) :
    (buildHostRule (h :: hs)).1 = String.ofList (textOf (hostExpr h hs)) := by
  cases hs with
  | nil => exact hostRule_eq h
  | cons h' hs =>
    have hrules : (h :: h' :: hs).map (fun h => hostRule h.text) =
        (leaf (hostCall h) :: (h' :: hs).map fun h => .leaf (hostCall h)).map fun e =>
          .ofList (textOf e) := by
      simp [hostRule_eq, Function.comp_def]
    have hdisj := @textOf_foldl .or " || " (fun _ _ => rfl)
      (.leaf (hostCall h)) ((h' :: hs).map fun h => .leaf (hostCall h))
    rw [← hrules] at hdisj
    have hparen : ∀ e, String.ofList (textOf (.paren e)) =
        "(" ++ .ofList (textOf e) ++ ")" := fun e => by
      apply String.toList_injective
      simp [textOf]
    exact (hparen _).trans (congrArg (fun s => "(" ++ s ++ ")") hdisj) |>.symm

theorem hostExpr_isPlain (hs : List Hostname) : (hostExpr h hs).All fun c => c.isPlain = true :=
  all_hostExpr h hs fun h => (exists_safeCall h).elim fun _ hsafe => hsafe.isPlain

theorem hostExpr_isLegal (hs : List Hostname) : (hostExpr h hs).All fun c => c.isLegal = true :=
  all_hostExpr h hs fun h => (exists_safeCall h).elim fun _ hsafe => hsafe.isLegal

theorem hostExpr_raw (hs : List Hostname) : (hostExpr h hs).map Call.raw = hostExpr h hs :=
  map_eq_self (all_hostExpr h hs fun h =>
    (exists_safeCall h).elim fun _ hsafe => hsafe.raw)

theorem hostExpr_text_ne (hs : List Hostname) : String.ofList (textOf (hostExpr h hs)) ≠ "" := by
  intro hempty
  -- the empty rule cannot be read
  have hread := read_textOf (hostExpr_grouped h hs).2 (hostExpr_isPlain h hs)
  rw [hempty, legal_textOf (hostExpr_isPlain h hs) (hostExpr_isLegal h hs)] at hread
  have hnone : read "" = none := by decide +kernel
  exact absurd (hnone.symm.trans hread) (by simp)

/-- **The rule of a match** with hostnames reads as the rule without them, the
    hostnames in front of its first alternative. -/
theorem read_buildMatchRule (hs : List Hostname) (m : HTTPRouteMatch) :
    read (buildMatchRule (h :: hs) m).1 = (read (matchRules m)).map (conjoin (hostExpr h hs)) := by
  have hrule : (buildMatchRule (h :: hs) m).1 =
      .ofList (textOf (hostExpr h hs)) ++ " && " ++ matchRules m := by
    simp only [buildMatchRule, buildHostRule_eq, if_neg (hostExpr_text_ne h hs)]
  obtain ⟨hrank, hgrouped⟩ := hostExpr_grouped h hs
  rw [hrule, read_conjoin hrank hgrouped (hostExpr_isPlain h hs) (hostExpr_isLegal h hs),
    hostExpr_raw]

/-! ## Confinement -/

/-- The alternatives after the first that the strings of a match write, when they are
    accepted at all, are true of requests for the hostnames only. -/
def Harmless (env : Env) (hostnames : List Hostname) (m : HTTPRouteMatch) : Prop :=
  ∀ e, read (matchRules m) = some e → e.All (Buildable (httpFuncs env.engines)) →
    ∀ o ∈ e.others, ∀ req, o.value (meaning env.engines req) = true →
      HostMatches env hostnames req

theorem confined_iff_harmless (env : Env) (h : Hostname) (hs : List Hostname)
    (m : HTTPRouteMatch) : Confined env (h :: hs) m ↔ Harmless env (h :: hs) m := by
  have hread := read_buildMatchRule h hs m
  have hbuildable : (hostExpr h hs).All (Buildable (httpFuncs env.engines)) :=
    all_hostExpr h hs fun h => (hostCall_matches env h).1
  constructor
  · intro hconfined e he hall o ho req hvalue
    have hrule : read (buildMatchRule (h :: hs) m).1 = some (conjoin (hostExpr h hs) e) := by
      rw [hread, he]
      rfl
    obtain ⟨t, ht⟩ := (compile_ok_iff).mpr
      ⟨_, hrule, all_conjoin.mpr ⟨hbuildable, hall⟩⟩
    refine hconfined t (parse_of_compile (s := env.parser) ht) req ?_
    rw [matchOn_meaning ht hrule, value_conjoin _ _ (grouped_of_read he), Bool.or_eq_true]
    exact .inr (any_eq_true.mpr ⟨o, ho, hvalue⟩)
  · intro hharmless t hparse req hmatch
    have ht := compile_of_parse hparse
    obtain ⟨e', hrule, hall⟩ := compile_ok_iff.mp ⟨t, ht⟩
    rw [matchOn_meaning ht hrule] at hmatch
    rw [hread] at hrule
    obtain ⟨e, he, rfl⟩ := Option.map_eq_some_iff.mp hrule
    rw [value_conjoin _ _ (grouped_of_read he), Bool.or_eq_true, Bool.and_eq_true,
      hostExpr_value] at hmatch
    obtain ⟨hhost, _⟩ | hother := hmatch
    · obtain ⟨x, hx, hvalue⟩ := any_eq_true.mp hhost
      exact ⟨x, hx, (hostCall_matches env x).2 req hvalue⟩
    · obtain ⟨o, ho, hvalue⟩ := any_eq_true.mp hother
      exact hharmless e he (all_conjoin.mp hall).2 o ho req hvalue

/-! ## Matches without back quotes -/

/-- The strings of a match that are inserted into its rule. -/
def HTTPRouteMatch.strings (m : HTTPRouteMatch) : List String :=
  m.pathOf.value.getD "/" :: m.method.toList ++
    (m.headers ++ m.queryParams).flatMap fun v => [v.name, v.value]

/-- What the path of a match asks for. -/
def pathExpr (pathMatch : HTTPPathMatch) : Expr Call :=
  let pathValue := pathMatch.value.getD "/"
  match pathMatch.type.getD .pathPrefix with
  | .exact => .leaf ⟨"Path", [pathValue]⟩
  | .pathPrefix =>
    if pathValue = "/" then .leaf ⟨"PathPrefix", ["/"]⟩
    else .paren (.or (.leaf ⟨"Path", [trimSlash pathValue]⟩)
      (.leaf ⟨"PathPrefix", [trimSlash pathValue ++ "/"]⟩))
  | .regularExpression => .leaf ⟨"PathRegexp", [pathValue]⟩
  | .other _ => .leaf ⟨"PathPrefix", ["/"]⟩

/-- What headers or query parameters ask for. -/
def valueExprs (exact regularExpression : String) (ms : List ValueMatch) : List (Expr Call) :=
  ms.filterMap fun m =>
    match m.type.getD .exact with
    | .exact => some (.leaf ⟨exact, [m.name, m.value]⟩)
    | .regularExpression => some (.leaf ⟨regularExpression, [m.name, m.value]⟩)
    | .other _ => none

/-- What a match asks for besides its path. -/
def restExprs (m : HTTPRouteMatch) : List (Expr Call) :=
  (m.method.map fun method => .leaf ⟨"Method", [method]⟩).toList ++
    valueExprs "Header" "HeaderRegexp" m.headers ++ valueExprs "Query" "QueryRegexp" m.queryParams

theorem buildPathRule_eq (pm : HTTPPathMatch) :
    (buildPathRule pm).1 = String.ofList (textOf (pathExpr pm)) := by
  unfold buildPathRule pathExpr
  cases pm.type.getD .pathPrefix with
  | exact => exact (textOf_call "Path" _).symm
  | pathPrefix =>
    dsimp only
    split
    · exact (textOf_call "PathPrefix" "/").symm
    · apply String.toList_injective
      simp [textOf, argsText]
  | regularExpression => exact (textOf_call "PathRegexp" _).symm
  | other name => exact (textOf_call "PathPrefix" "/").symm

theorem buildValueRules_eq (exact regularExpression : String) (each : ℕ) (ms : List ValueMatch) :
    (buildValueRules exact regularExpression each ms).1 =
      (valueExprs exact regularExpression ms).map fun e => String.ofList (textOf e) := by
  simp only [buildValueRules, valueExprs, map_filterMap]
  congr 1
  funext m
  cases m.type.getD .exact with
  | exact | regularExpression => exact congrArg some (textOf_call₂ ..).symm
  | other name => rfl

theorem matchRules_eq (m : HTTPRouteMatch) :
    matchRules m = String.ofList (textOf ((pathExpr m.pathOf).conj (restExprs m))) := by
  have hrest : (m.method.map fun method => "Method(`" ++ method ++ "`)").toList ++
      (buildHeaderRules m.headers).1 ++ (buildQueryParamRules m.queryParams).1 =
        (restExprs m).map fun e => .ofList (textOf e) := by
    rw [buildHeaderRules, buildQueryParamRules, buildValueRules_eq, buildValueRules_eq, restExprs,
      map_append, map_append]
    cases m.method with
    | none => rfl
    | some method => exact congrArg (· :: _) (textOf_call "Method" method).symm
  have hconj := @textOf_foldl .and " && " (fun _ _ => rfl) (pathExpr m.pathOf) (restExprs m)
  rw [matchRules, buildPathRule_eq, cons_append, cons_append, hrest]
  exact hconj.symm

/-- A call without back quotes. -/
theorem isPlain_call {name : String} (hname : name ∈ matcherNames) {args : List String}
    (hargs : ∀ a ∈ args, '`' ∉ a.toList) : (⟨name, args⟩ : Call).isPlain = true := by
  have hnames : ∀ name ∈ matcherNames, isName name = true := by decide +kernel
  have hquote : ∀ a ∈ args, ∀ c ∈ a.toList, c ≠ '`' := fun a ha c hc heq =>
    hargs a ha (heq ▸ hc)
  simpa [Call.isPlain, hnames name hname] using hquote

theorem pathExpr_plain {pm : HTTPPathMatch} (h : '`' ∉ (pm.value.getD "/").toList) :
    (pathExpr pm).All (fun c => c.isPlain = true) ∧ (pathExpr pm).rank = 2 ∧
      (pathExpr pm).Grouped := by
  have hslash : ∀ {name}, name ∈ matcherNames → (⟨name, ["/"]⟩ : Call).isPlain = true :=
    fun hname => isPlain_call hname (by simp)
  have hvalue : ∀ {name}, name ∈ matcherNames →
      (⟨name, [pm.value.getD "/"]⟩ : Call).isPlain = true :=
    fun hname => isPlain_call hname (by simpa using h)
  unfold pathExpr
  cases pm.type.getD .pathPrefix with
  | exact | regularExpression => exact ⟨hvalue (by decide), rfl, trivial⟩
  | pathPrefix =>
    dsimp only
    split
    · exact ⟨hslash (by decide), rfl, trivial⟩
    · have htrim : '`' ∉ (trimSlash (pm.value.getD "/")).toList := by
        unfold trimSlash
        split
        · rw [String.toList_ofList]
          exact fun hmem => h (mem_of_mem_dropLast hmem)
        · exact h
      refine ⟨⟨isPlain_call (by decide) (by simpa using htrim),
        isPlain_call (by decide) (by simpa using htrim)⟩, rfl, trivial, ?_, trivial⟩
      exact Nat.le_succ 1
  | other name => exact ⟨hslash (by decide), rfl, trivial⟩

theorem valueExprs_plain {exact regularExpression : String} (hexact : exact ∈ matcherNames)
    (hregexp : regularExpression ∈ matcherNames) {ms : List ValueMatch}
    (h : ∀ v ∈ ms, '`' ∉ v.name.toList ∧ '`' ∉ v.value.toList) {e : Expr Call}
    (he : e ∈ valueExprs exact regularExpression ms) :
    e.All (fun c => c.isPlain = true) ∧ e.rank = 2 ∧ e.Grouped := by
  obtain ⟨v, hv, hsome⟩ := mem_filterMap.mp he
  have hcall : ∀ {name}, name ∈ matcherNames →
      (⟨name, [v.name, v.value]⟩ : Call).isPlain = true :=
    fun hname => isPlain_call hname (by simpa using h v hv)
  cases htype : v.type.getD .exact with
  | exact =>
    rw [htype] at hsome
    cases hsome
    exact ⟨hcall hexact, rfl, trivial⟩
  | regularExpression =>
    rw [htype] at hsome
    cases hsome
    exact ⟨hcall hregexp, rfl, trivial⟩
  | other name =>
    rw [htype] at hsome
    cases hsome

variable {m : HTTPRouteMatch}

theorem restExprs_plain (h : ∀ s ∈ m.strings, '`' ∉ s.toList)
    {e : Expr Call} (he : e ∈ restExprs m) :
    e.All (fun c => c.isPlain = true) ∧ e.rank = 2 ∧ e.Grouped := by
  have hvals : ∀ v ∈ m.headers ++ m.queryParams, '`' ∉ v.name.toList ∧ '`' ∉ v.value.toList := by
    intro v hv
    have hmem : ∀ s ∈ [v.name, v.value], '`' ∉ s.toList := fun s hs =>
      h s (mem_append_right _ (mem_flatMap.mpr ⟨v, hv, hs⟩))
    exact ⟨hmem _ (.head _), hmem _ (by simp)⟩
  obtain he | he := mem_append.mp he
  · obtain he | he := mem_append.mp he
    · obtain ⟨method, hmethod, rfl⟩ := Option.map_eq_some_iff.mp (Option.mem_toList.mp he)
      have hquote : '`' ∉ method.toList :=
        h method (mem_append_left _ (.tail _ (Option.mem_toList.mpr hmethod)))
      exact ⟨isPlain_call (by decide) (by simpa using hquote), rfl, trivial⟩
    · exact valueExprs_plain (by decide) (by decide)
        (fun v hv => hvals v (mem_append_left _ hv)) he
  · exact valueExprs_plain (by decide) (by decide)
      (fun v hv => hvals v (mem_append_right _ hv)) he

/-- Without back quotes, a match writes one alternative only. -/
theorem harmless_of_plain (env : Env) (hosts : List Hostname)
    (h : ∀ s ∈ m.strings, '`' ∉ s.toList) : Harmless env hosts m := by
  intro e hread _ o ho
  obtain ⟨hpath, hrank, hgrouped⟩ := pathExpr_plain (h _ (.head _))
  have hconj := grouped_conj (hrank ▸ Nat.le_succ 1) hgrouped
    fun x hx => (restExprs_plain h hx).2
  have hplain : ((pathExpr m.pathOf).conj (restExprs m)).All fun c => c.isPlain = true :=
    all_conj.mpr (forall_mem_cons.mpr ⟨hpath, fun x hx => (restExprs_plain h hx).1⟩)
  rw [matchRules_eq, read_textOf hconj.2 hplain] at hread
  split at hread
  · cases hread
  · cases hread
    rw [others_of_rank (rank_map.symm ▸ hconj.1)] at ho
    cases ho

/-- The subdomains of a domain. -/
def isBelow (domain cs : List Char) : Bool :=
  let n := cs.length - (domain.length + 1)
  cs.drop n = '.' :: domain && n ≠ 0 && (cs.take n).all isHostChar

theorem isBelow_iff {domain cs : List Char} : isBelow domain cs = true ↔
    ∃ p ≠ [], (∀ c ∈ p, isHostChar c = true) ∧ cs = p ++ '.' :: domain := by
  simp only [isBelow, Bool.and_eq_true, decide_eq_true_eq, all_eq_true]
  constructor
  · rintro ⟨⟨hdrop, hn⟩, hall⟩
    refine ⟨_, fun hnil => ?_, hall, ?_⟩
    · have hlen := congrArg length hnil
      simp only [length_take, length_nil] at hlen
      omega
    · rw [← hdrop, take_append_drop]
  · rintro ⟨p, hp, hall, rfl⟩
    have hn : (p ++ '.' :: domain).length - (domain.length + 1) = p.length := by simp
    exact ⟨⟨by simp, by simpa using hp⟩, by simpa using hall⟩

/-- A compiler of the patterns of subdomains, and of no others. -/
def compileSubdomains (pattern : String) : Except String Regexp :=
  let front := "^[a-z0-9-\\.]+\\.".toList
  if front.isPrefixOf pattern.toList then
    let domain := ((pattern.toList.drop front.length).dropLast).filter (· ≠ '\\')
    .ok { matchString := fun t => isBelow domain t.toList, matchBytes := fun _ => false }
  else .error "unsupported pattern"

theorem filter_quoteMeta (h : ∀ c ∈ domain, isHostChar c = true) :
    (quoteMeta domain).filter (· ≠ '\\') = domain := by
  induction domain with
  | nil => rfl
  | cons c cs ih =>
    obtain ⟨hc, hcs⟩ := forall_mem_cons.mp h
    have hne : c ≠ '\\' := by
      rintro rfl
      exact absurd hc (by decide)
    have hcons : quoteMeta (c :: cs) =
        (if c ∈ "\\.+*?()|[]\x7b\x7d^$".toList then ['\\', c] else [c]) ++ quoteMeta cs := rfl
    rw [hcons, filter_append, ih hcs]
    split <;> simp [hne]

theorem compileSubdomains_wildcard (h : ∀ c ∈ domain, isHostChar c = true) :
    compileSubdomains (wildcardPattern domain) =
      .ok { matchString := fun t => isBelow domain t.toList, matchBytes := fun _ => false } := by
  have hpat : (wildcardPattern domain).toList =
      "^[a-z0-9-\\.]+\\.".toList ++ (quoteMeta domain ++ ['$']) := by
    simp [wildcardPattern]
  have hmiddle : (((wildcardPattern domain).toList.drop
      "^[a-z0-9-\\.]+\\.".toList.length).dropLast).filter (· ≠ '\\') = domain := by
    rw [hpat, drop_left, dropLast_concat, filter_quoteMeta h]
  have hfront : "^[a-z0-9-\\.]+\\.".toList.isPrefixOf (wildcardPattern domain).toList = true := by
    rw [hpat, List.isPrefixOf_iff_prefix]
    exact prefix_append _ _
  simp only [compileSubdomains, hmiddle, hfront, if_true]

/-- ASCII letters, and the patterns of subdomains. -/
def asciiEnv : Env where
  engines :=
    { toUpper := String.toUpper
      equalFold := fun s t => s.toLower = t.toLower
      canonicalHeaderKey := id
      newChecker := fun _ => .error "unsupported address"
      compile := compileSubdomains }
  funcsV2 := []
  wildcard := fun _ hdomain => ⟨_, compileSubdomains_wildcard hdomain, fun _ => isBelow_iff⟩

/-- The hostname `foo.com`. -/
def fooHostname : Hostname where
  text := "foo.com"
  pattern := by decide +kernel
  maxLength := by decide +kernel

/-- A match for a header `X` with the given value. -/
def headerMatch (value : String) : HTTPRouteMatch where
  path := none
  method := none
  headers := [⟨none, "X", value⟩]
  queryParams := []

/-- A request for `bar.com`. -/
def barRequest : Request Context where
  url := ⟨[], []⟩
  routingPath := some (utf8 "/")
  rest :=
    { remoteIP := "10.0.0.1"
      method := "GET"
      canonizedHost := "bar.com"
      cnameFlatten := ""
      header := fun _ => []
      query := fun _ => none }

theorem barRequest_not_foo : ¬ HostMatches asciiEnv [fooHostname] barRequest := by
  rintro ⟨h, hmem, t, hname, hcovers⟩
  obtain rfl := mem_singleton.mp hmem
  have htext : t = "foo.com" := by
    obtain heq | ⟨p, dom, heq, _⟩ := hcovers
    · exact heq
    · have hhead : fooHostname.text.toList.head? = some '*' := by
        rw [heq]
        rfl
      exact absurd hhead (by decide +kernel)
  subst htext
  generalize hfoo : "foo.com" = foo at hname
  cases hname with
  | canonized | flattened => exact absurd hfoo (by decide +kernel)
  | period hperiod =>
    subst hfoo
    exact absurd hperiod (by decide +kernel)
  | folded hfold =>
    subst hfoo
    exact absurd hfold (by decide +kernel)

/-- What the documented order compares of the path: whether it is exact, and the length of a
    prefix. -/
def HTTPRouteMatch.pathCriteria (m : HTTPRouteMatch) : ℕ × ℕ :=
  if m.pathOf.type = some .exact then (1, 0) else (0, (m.pathOf.value.getD "/").length)

/-- What the documented order compares, one after the other. -/
def HTTPRouteMatch.criteria (m : HTTPRouteMatch) : List ℕ :=
  [m.pathCriteria.1, m.pathCriteria.2, m.method.isSome.toNat, m.headers.length,
    m.queryParams.length]

/-- The first match precedes the second.  Regular expressions have no place in the order. -/
def Precedes (m m' : HTTPRouteMatch) : Prop :=
  (∀ type ∈ [m.pathOf.type, m'.pathOf.type], type.getD .pathPrefix ∈ [.exact, .pathPrefix]) ∧
    m'.criteria < m.criteria

/-- The catch-all prefix, which is evaluated last. -/
def HTTPRouteMatch.IsRoot (m : HTTPRouteMatch) : Prop :=
  m.pathOf.type ≠ some .exact ∧ m.pathOf.value.getD "/" = "/"

/-- The bytes of a prefix. -/
def HTTPRouteMatch.prefixBytes (m : HTTPRouteMatch) : ℕ :=
  if m.pathOf.type = some .exact then 0 else (m.pathOf.value.getD "/").utf8ByteSize

/-- What the criteria behind the path weigh. -/
def HTTPRouteMatch.behind (m : HTTPRouteMatch) : ℕ :=
  1000 * m.method.isSome.toNat + 100 * m.headers.length + 10 * m.queryParams.length

/-- The first path weighs more than what the second match has more of behind it. -/
@[mk_iff]
structure Outweighs (m m' : HTTPRouteMatch) : Prop where
  root : m.IsRoot → m'.IsRoot
  exact : m'.pathCriteria.1 < m.pathCriteria.1 → ¬ m'.IsRoot →
    100 * m'.prefixBytes + m'.behind < 90000 + m.behind
  longer : m'.pathCriteria.1 = m.pathCriteria.1 → (m'.IsRoot → m.IsRoot) →
    100 * m'.prefixBytes + m'.behind < 100 * m.prefixBytes + m.behind

open HTTPRouteMatch

theorem buildPathRule_priority (htype : m.pathOf.type.getD .pathPrefix ∈ [.exact, .pathPrefix]) :
    (buildPathRule m.pathOf).2 = if m.pathOf.type = some .exact then 100000
      else if m.pathOf.value.getD "/" = "/" then 1 else 10000 + m.prefixBytes * 100 := by
  unfold buildPathRule prefixBytes
  rcases htypes : m.pathOf.type with _ | _ | _ | _ | _ <;> simp [htypes] at htype ⊢ <;>
    split <;> rfl

theorem matchPriority_eq (m : HTTPRouteMatch) :
    matchPriority m = (buildPathRule m.pathOf).2 + m.behind := by
  rw [matchPriority, behind, ← Nat.add_assoc, ← Nat.add_assoc]
  cases m.method <;> rfl

/-- **A match that precedes another has the greater priority** exactly when its path weighs
    more than what the other has more of behind it. -/
theorem precedes_iff (hostnames : List Hostname) (m m' : HTTPRouteMatch) (h : Precedes m m')
    (hlimit : ∀ x ∈ [m, m'], x.headers.length ≤ 16 ∧ x.queryParams.length ≤ 16) :
    (buildMatchRule hostnames m').2 < (buildMatchRule hostnames m).2 ↔ Outweighs m m' := by
  have hhosts : (buildMatchRule hostnames m').2 < (buildMatchRule hostnames m).2 ↔
      matchPriority m' < matchPriority m := by
    simp only [buildMatchRule]
    split <;> simp
  have hbehind : ∀ x ∈ [m, m'], x.behind ≤ 2760 := by
    intro x hx
    have hone := Bool.toNat_le x.method.isSome
    have hmost := hlimit x hx
    unfold behind
    omega
  have hm := hbehind m (by simp)
  have hm' := hbehind m' (by simp)
  have hexact : m'.pathCriteria.1 ≤ m.pathCriteria.1 := by
    obtain hlt | ⟨heq, -⟩ := cons_lt_cons_iff.mp h.2
    · exact hlt.le
    · exact heq.le
  rw [hhosts, matchPriority_eq, matchPriority_eq, buildPathRule_priority (h.1 _ (by simp)),
    buildPathRule_priority (h.1 _ (by simp)), outweighs_iff]
  -- the criteria behind the path weigh less than any path but the catch-all one
  simp only [HTTPRouteMatch.IsRoot, pathCriteria, prefixBytes]
    at hexact ⊢
  by_cases he : m.pathOf.type = some .exact <;> by_cases he' : m'.pathOf.type = some .exact <;>
    by_cases hr : m.pathOf.value.getD "/" = "/" <;>
    by_cases hr' : m'.pathOf.value.getD "/" = "/" <;>
    simp [he, he', hr, hr'] at hexact ⊢ <;> omega

/-- A match of a path and a method. -/
def matchWith (type : PathMatchType) (value : String) (method : Option String) :
    HTTPRouteMatch where
  path := some { type := some type, value := some value }
  method := method
  headers := []
  queryParams := []

theorem exact_first : Precedes (matchWith .exact "/a" none) (matchWith .pathPrefix "/ab" none) ∧
    (buildMatchRule [] (matchWith .pathPrefix "/ab" none)).2 <
      (buildMatchRule [] (matchWith .exact "/a" none)).2 := by
  have h : Precedes (matchWith .exact "/a" none) (matchWith .pathPrefix "/ab" none) := by
    unfold Precedes
    decide
  exact ⟨h, (precedes_iff [] _ _ h (by decide)).mpr
    ⟨fun hroot => absurd rfl hroot.1, fun _ _ => by decide, fun heq => by cases heq⟩⟩

/-- A method weighs more than a longer prefix. -/
theorem method_first :
    Precedes (matchWith .pathPrefix "/ab" none) (matchWith .pathPrefix "/a" (some "GET")) ∧
    (buildMatchRule [] (matchWith .pathPrefix "/ab" none)).2 = 10300 ∧
    (buildMatchRule [] (matchWith .pathPrefix "/a" (some "GET"))).2 = 11200 := by
  unfold Precedes
  decide

end Ingress.Gateway
