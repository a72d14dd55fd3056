import Ingress.Gateway.MatchRule
import Ingress.Muxer.Tcp

/-! # The Rule of a TLS Route

    `hostSNIRule` of `tlsroute.go` writes the rule of a TCP router for the hostnames that a
    listener and a route have in common: an alternative for each, or a rule for all server names
    when there are none.

    * `hostSNIRule`: the code.
    * `CoveredBy`: the server names of a list of hostnames.
    * `hostSNIRule_matches`: the rule is accepted, and matches these server names and no other. -/

open List BoolExpr Ingress.Rules Ingress.Muxer String

namespace Ingress.Gateway

/-! ## The code -/

/-- The rule of one hostname. -/
def sniRule (host : String) : String :=
  if wildcards host = 0 then "HostSNI(`" ++ host ++ "`)"
  else
    let pattern := replaceFirst "\\*\\.".toList "[a-z0-9-\\.]+\\.".toList (quoteMeta host.toList)
    "HostSNIRegexp(`^" ++ ofList pattern ++ "$`)"

/-- The variables of the loop of `hostSNIRule`. -/
structure SniRules where
  priority : ℕ
  rules : List String
  uniqHostnames : List Hostname

/-- One turn of the loop.  No hostname is empty. -/
def SniRules.add (acc : SniRules) (hostname : Hostname) : SniRules :=
  let thisPriority := hostname.text.utf8ByteSize - wildcards hostname.text
  let priority := if acc.priority < thisPriority then thisPriority else acc.priority
  if hostname ∈ acc.uniqHostnames then { acc with priority }
  else
    { priority
      rules := acc.rules ++ [sniRule hostname.text]
      uniqHostnames := acc.uniqHostnames ++ [hostname] }

open SniRules

def hostSNIRule (hostnames : List Hostname) : String × ℕ :=
  let acc := hostnames.foldl add ⟨0, [], []⟩
  if hostnames = [] ∨ acc.rules = [] then ("HostSNI(`*`)", 0)
  else (" || ".intercalate acc.rules, acc.priority)

/-! ## Server names -/

/-- The name of a server, in lower case. -/
structure IsServerName (t : String) : Prop where
  nonempty : t ≠ ""
  chars : ∀ c ∈ t.toList, isHostChar c = true

/-- The hostnames cover a server name; no hostname at all stands for every server name. -/
def CoveredBy (hostnames : List Hostname) (t : String) : Prop :=
  hostnames = [] ∨ ∃ h ∈ hostnames, h.Covers t

/-- What `regexp` does with the patterns of subdomains. -/
structure SniEnv where
  engines : TcpMuxer.Engines
  wildcard : ∀ domain, (∀ c ∈ domain, isHostChar c = true) →
    ∃ re, engines.compile (wildcardPattern domain) = .ok re ∧
      ∀ t, re t = true ↔ ∃ p ≠ [], (∀ c ∈ p, isHostChar c = true) ∧ t.toList = p ++ '.' :: domain

/-- The rule is accepted, and matches connections to a server, whatever it was asked before. -/
def RuleMatches (env : SniEnv) (rule t : String) : Prop :=
  ∃ tree, compile (TcpMuxer.kind TcpMuxer.Matcher.call) (TcpMuxer.tcpFuncs env.engines) rule =
      .ok tree ∧
    ∀ conns conn, conn.serverName = t →
      ((tree.after (TcpMuxer.kind TcpMuxer.Matcher.call) conns).matchOn
        (TcpMuxer.kind TcpMuxer.Matcher.call) conn).1 = true

/-! ## One hostname -/

/-- The call that asks for a hostname. -/
def sniCall (h : Hostname) : Call :=
  if wildcards h.text = 0 then ⟨"HostSNI", [h.text]⟩
  else ⟨"HostSNIRegexp", [wildcardPattern (h.text.toList.drop 2)]⟩

variable {h : Hostname}

theorem sniCall_domain (hstar : '*' ∉ h.text.toList) : sniCall h = ⟨"HostSNI", [h.text]⟩ :=
  if_pos (count_eq_zero.mpr hstar)

theorem sniCall_wildcard {dom : List Char} (heq : h.text.toList = '*' :: '.' :: dom) :
    sniCall h = ⟨"HostSNIRegexp", [wildcardPattern dom]⟩ := by
  simp [sniCall, wildcards, heq]

/-- The rule of a hostname is the text of its call. -/
theorem sniRule_eq (h : Hostname) :
    sniRule h.text = String.ofList (textOf (.leaf (sniCall h))) := by
  obtain ⟨_, hstar⟩ | ⟨dom, heq, _⟩ := h.shape
  · have hzero : wildcards h.text = 0 := count_eq_zero.mpr hstar
    rw [sniCall_domain hstar, textOf_call, sniRule, if_pos hzero]
    rfl
  · have hone : wildcards h.text ≠ 0 := by simp [wildcards, heq]
    have hfront : "HostSNIRegexp(`^" = "HostSNIRegexp" ++ "(`" ++ "^" := rfl
    have hback : "$`)" = "$" ++ "`)" := rfl
    rw [sniCall_wildcard heq, textOf_call, sniRule, if_neg hone, heq, replaceFirst_wildcard,
      wildcardPattern, hfront, hback]
    simp only [String.append_assoc]

/-- A call of a matcher with one argument that is safe. -/
structure SafeSni (c : Call) (name arg : String) : Prop where
  eq : c = ⟨name, [arg]⟩
  matcher : name ∈ ["HostSNI", "HostSNIRegexp"]
  nonempty : arg ≠ ""
  safe : ∀ x ∈ arg.toList, isSafe x = true

theorem exists_safeSni (h : Hostname) : ∃ name arg, SafeSni (sniCall h) name arg := by
  obtain ⟨hdom, hstar⟩ | ⟨dom, heq, hdom⟩ := h.shape
  · refine ⟨"HostSNI", h.text, sniCall_domain hstar, by simp, ?_, ?_⟩
    · intro hempty
      exact ne_nil_of_isDomain hdom (by simp [hempty])
    · intro c hc
      exact isSafe_of_isHostChar (isHostChar_of_isDomain hdom c hc)
  · refine ⟨"HostSNIRegexp", wildcardPattern dom, sniCall_wildcard heq, by simp, ?_, ?_⟩
    · intro hempty
      have htext := congrArg toList hempty
      simp [wildcardPattern] at htext
    · exact isSafe_wildcardPattern (isHostChar_of_isDomain hdom)

open TcpMuxer

/-- A domain does not end in a period. -/
theorem trimPeriod_domain {s : String} (h : isDomain s.toList = true) : trimPeriod s = s := by
  rw [trimPeriod, if_neg]
  intro hlast
  obtain ⟨front, hfront⟩ := getLast?_eq_some_iff.mp hlast
  have hlabels := all_eq_true.mp ((Bool.and_eq_true _ _).mp h).2
  rw [hfront, splitOn_append_cons_self] at hlabels
  exact absurd (hlabels [] (mem_append_right _ (by decide))) (by decide)

/-- The characters of a domain are among those that `HostSNI` accepts. -/
theorem tcp_isHostChar {c : Char} (h : isHostChar c = true) : TcpMuxer.isHostChar c = true := by
  simp only [isHostChar, Bool.or_eq_true, Bool.and_eq_true, decide_eq_true_eq, Char.le_def] at h
  have halpha : c.isAlpha = (c.isUpper || (decide (97 ≤ c.val) && decide (c.val ≤ 122))) := rfl
  simp only [TcpMuxer.isHostChar, Char.isAlphanum, halpha, Char.isDigit, Bool.or_eq_true,
    Bool.and_eq_true, decide_eq_true_eq, ge_iff_le]
  rcases h with ((h | h) | h) | h
  · exact .inl (.inl (.inl (.inl (.inl (.inr h)))))
  · exact .inl (.inl (.inl (.inl (.inr h))))
  · exact .inl (.inr h)
  · exact .inl (.inl (.inr h))

section

variable {env : SniEnv}

theorem function_sni {name : String} (h : name ∈ ["HostSNI", "HostSNIRegexp"]) :
    (tcpFuncs env.engines).parser.function name = some name := by
  have hparser : (tcpFuncs env.engines).parser =
      ⟨["ALPN", "ClientIP", "HostSNI", "HostSNIRegexp"]⟩ := rfl
  have hall : ∀ name ∈ ["HostSNI", "HostSNIRegexp"],
      (Rules.Parser.mk ["ALPN", "ClientIP", "HostSNI", "HostSNIRegexp"]).function name =
        some name := by decide +kernel
  exact hall name h

/-- The matcher of a hostname: how it is built, that calls leave it as it is, and which server
    names it matches. -/
structure IsSniMatcher (env : SniEnv) (h : Hostname) (m : TcpMuxer.Matcher) : Prop where
  built : ∀ name, (TcpMuxer.tcpFuncs env.engines).parser.function (sniCall h).name = some name →
    buildMatcher (TcpMuxer.tcpFuncs env.engines) name (sniCall h).args = .ok m
  stays : ∀ conn, (m.call conn).2 = m
  matches_iff : ∀ conn, IsServerName conn.serverName →
    ((m.call conn).1 = true ↔ h.Covers conn.serverName)

theorem isSniMatcher_domain (hdom : isDomain h.text.toList = true)
    (hstar : '*' ∉ h.text.toList) : IsSniMatcher env h (.hostSNI h.text) where
  built := by
    intro name hname
    rw [sniCall_domain hstar, function_sni (by simp)] at hname
    cases hname
    have hlook : (tcpFuncs env.engines).lookup "HostSNI" =
        some (TcpMuxer.expect1Parameter TcpMuxer.hostSNI) := rfl
    have hne : h.text ≠ "*" := by
      intro heq
      exact hstar (by simp [heq])
    have hhost : TcpMuxer.hostOrIP h.text = true := by
      have hnonempty : h.text ≠ "" := by
        intro hempty
        exact ne_nil_of_isDomain hdom (by simp [hempty])
      have hchars : h.text.toList.all TcpMuxer.isHostChar = true :=
        all_eq_true.mpr fun c hc => tcp_isHostChar (isHostChar_of_isDomain hdom c hc)
      simp [TcpMuxer.hostOrIP, hnonempty, hchars]
    rw [sniCall_domain hstar, buildMatcher, hlook]
    simp [TcpMuxer.expect1Parameter, TcpMuxer.hostSNI, hne, hhost]
  stays := by
    intro conn
    simp only [TcpMuxer.Matcher.call, trimPeriod_domain hdom]
    split
    · rfl
    · split <;> rfl
  matches_iff := by
    intro conn hconn
    have hcovers : h.Covers conn.serverName ↔ conn.serverName = h.text := by
      constructor
      · rintro (heq | ⟨p, dom, heq, -⟩)
        · exact heq
        · exact absurd (by simp [heq]) hstar
      · exact .inl
    rw [hcovers]
    simp only [TcpMuxer.Matcher.call, trimPeriod_domain hdom, if_neg hconn.nonempty]
    split
    · next heq => simp [heq]
    · next heq => simp [heq, Ne.symm heq]

theorem isSniMatcher_wildcard {dom : List Char}
    (heq : h.text.toList = '*' :: '.' :: dom) (hdom : isDomain dom = true) :
    ∃ m, IsSniMatcher env h m := by
  obtain ⟨re, hre, hmatch⟩ := env.wildcard dom (isHostChar_of_isDomain hdom)
  refine ⟨.hostSNIRegexp re, ?_, fun _ => rfl, ?_⟩
  · intro name hname
    rw [sniCall_wildcard heq, function_sni (by simp)] at hname
    cases hname
    have hlook : (tcpFuncs env.engines).lookup "HostSNIRegexp" =
        some (TcpMuxer.expect1Parameter (hostSNIRegexp env.engines)) := rfl
    have hascii : (wildcardPattern dom).toList.all (·.toNat < 128) = true :=
      isASCII_of_safe (isSafe_wildcardPattern (isHostChar_of_isDomain hdom))
    rw [sniCall_wildcard heq, buildMatcher, hlook]
    simp only [TcpMuxer.expect1Parameter, hostSNIRegexp, hascii, if_true, hre]
    rfl
  · intro conn hconn
    rw [show (TcpMuxer.Matcher.call (.hostSNIRegexp re) conn).1 = re conn.serverName from rfl,
      hmatch]
    constructor
    · rintro ⟨p, hp, -, htext⟩
      exact .inr ⟨p, dom, heq, hp, htext⟩
    · rintro (hsame | ⟨p, dom', heq', hp, htext⟩)
      · -- no server name has a star
        have hstar : '*' ∈ conn.serverName.toList := by simp [hsame, heq]
        exact absurd (hconn.chars '*' hstar) (by decide)
      · rw [heq] at heq'
        cases heq'
        refine ⟨p, hp, fun c hc => hconn.chars c ?_, htext⟩
        rw [htext]
        exact mem_append_left _ hc

theorem exists_isSniMatcher (env : SniEnv) (h : Hostname) : ∃ m, IsSniMatcher env h m := by
  obtain ⟨hdom, hstar⟩ | ⟨dom, heq, hdom⟩ := h.shape
  · exact ⟨_, isSniMatcher_domain hdom hstar⟩
  · exact isSniMatcher_wildcard heq hdom

end

/-! ## Several hostnames -/

open Expr

/-- The expression that asks for one of several hostnames. -/
def sniExpr (h : Hostname) (hs : List Hostname) : Expr Call :=
  (leaf (sniCall h)).disj (hs.map fun h => .leaf (sniCall h))

theorem all_sniExpr {P : Call → Prop} (h : Hostname) (hs : List Hostname)
    (hP : ∀ h, P (sniCall h)) : (sniExpr h hs).All P := by
  refine all_disj.mpr (forall_mem_cons.mpr ⟨hP h, ?_⟩)
  intro e he
  obtain ⟨x, _, rfl⟩ := mem_map.mp he
  exact hP x

/-- The rules that the loop has written are those of the hostnames it has seen. -/
theorem rules_foldl (hostnames : List Hostname) (acc : SniRules)
    (hacc : acc.rules = acc.uniqHostnames.map fun h => sniRule h.text) :
    (hostnames.foldl add acc).rules =
        (hostnames.foldl add acc).uniqHostnames.map (fun h => sniRule h.text) ∧
      ∀ h, h ∈ (hostnames.foldl add acc).uniqHostnames ↔
        h ∈ acc.uniqHostnames ∨ h ∈ hostnames := by
  induction hostnames generalizing acc with
  | nil => exact ⟨hacc, fun h => by simp⟩
  | cons hostname hostnames ih =>
    have hstep : (acc.add hostname).rules = (acc.add hostname).uniqHostnames.map
        (fun h => sniRule h.text) := by
      rw [add]
      split
      · exact hacc
      · simp [hacc]
    have hmem : ∀ h, h ∈ (acc.add hostname).uniqHostnames ↔
        h ∈ acc.uniqHostnames ∨ h = hostname := by
      intro h
      rw [add]
      split
      · next hseen =>
        constructor
        · exact .inl
        · rintro (h | rfl)
          · exact h
          · exact hseen
      · simp
    obtain ⟨hrules, hall⟩ := ih (acc.add hostname) hstep
    refine ⟨hrules, fun h => ?_⟩
    rw [foldl_cons, hall, hmem, mem_cons, or_assoc]

/-- The rule of hostnames is the text of the expression of the same hostnames. -/
theorem exists_sniExpr {hosts : List Hostname} (hne : hosts ≠ []) :
    ∃ h hs, (∀ x, x ∈ h :: hs ↔ x ∈ hosts) ∧
      (hostSNIRule hosts).1 = ofList (textOf (sniExpr h hs)) := by
  obtain ⟨hrules, hmem⟩ := rules_foldl hosts ⟨0, [], []⟩ rfl
  rw [hostSNIRule]
  cases huniq : (hosts.foldl add ⟨0, [], []⟩).uniqHostnames with
  | nil =>
    obtain ⟨x, hx⟩ := exists_mem_of_ne_nil hosts hne
    have hnone := (hmem x).mpr (.inr hx)
    rw [huniq] at hnone
    cases hnone
  | cons h hs =>
    rw [huniq] at hrules hmem
    have hsome : ¬(hosts = [] ∨ (hosts.foldl add ⟨0, [], []⟩).rules = []) := by
      simp [hne, hrules]
    refine ⟨h, hs, by simpa using hmem, ?_⟩
    rw [if_neg hsome, hrules]
    have htexts : (h :: hs).map (fun h => sniRule h.text) =
        (leaf (sniCall h) :: hs.map fun h => .leaf (sniCall h)).map fun e =>
          ofList (textOf e) := by
      simp [sniRule_eq, Function.comp_def]
    rw [htexts]
    exact (@textOf_foldl .or " || " (fun _ _ => rfl) _ _).symm

/-- The rule reads as the expression. -/
theorem read_sniExpr (h : Hostname) (hs : List Hostname) :
    read (ofList (textOf (sniExpr h hs))) = some (sniExpr h hs) := by
  have hnames : ∀ name ∈ ["HostSNI", "HostSNIRegexp"], isName name = true := by decide +kernel
  have hplain : (sniExpr h hs).All fun c => c.isPlain = true := by
    apply all_sniExpr
    intro h
    obtain ⟨name, arg, hsafe⟩ := exists_safeSni h
    rw [hsafe.eq]
    exact isPlain_of_safe (hnames name hsafe.matcher) hsafe.safe
  have hlegal : (sniExpr h hs).All fun c => c.isLegal = true := by
    apply all_sniExpr
    intro h
    obtain ⟨name, arg, hsafe⟩ := exists_safeSni h
    rw [hsafe.eq]
    exact isLegal_of_safe hsafe.safe
  have hraw : (sniExpr h hs).map Call.raw = sniExpr h hs := by
    apply map_eq_self
    apply all_sniExpr
    intro h
    obtain ⟨name, arg, hsafe⟩ := exists_safeSni h
    rw [hsafe.eq]
    exact raw_of_safe hsafe.safe
  have hgrouped : (sniExpr h hs).Grouped := by
    refine grouped_disj trivial ?_
    intro e he
    obtain ⟨x, _, rfl⟩ := mem_map.mp he
    exact ⟨Nat.le_succ 1, trivial⟩
  rw [read_textOf hgrouped hplain, legal_textOf hplain hlegal, if_neg Bool.false_ne_true, hraw]

/-! ## The rule -/

/-- What a call asks about a connection; nothing when no matcher can be built. -/
def sniMeaning (env : SniEnv) (conn : TcpMuxer.ConnData) (c : Call) : Bool :=
  (((TcpMuxer.tcpFuncs env.engines).parser.function c.name).bind fun name =>
    (buildMatcher (TcpMuxer.tcpFuncs env.engines) name c.args).toOption).any
      fun m => (m.call conn).1

/-- The call has a matcher that calls leave as it is. -/
def Steady (env : SniEnv) (c : Call) : Prop :=
  ∃ name m, (TcpMuxer.tcpFuncs env.engines).parser.function c.name = some name ∧
    checkRule name c.args = .ok () ∧
    buildMatcher (TcpMuxer.tcpFuncs env.engines) name c.args = .ok m ∧ ∀ conn, (m.call conn).2 = m

variable {env : SniEnv}

theorem Steady.answer {c : Call} (h : Steady env c) {m : TcpMuxer.Matcher}
    (hbuilt : BuiltFor (kind TcpMuxer.Matcher.call) (tcpFuncs env.engines) c m)
    (conn : TcpMuxer.ConnData) : sniMeaning env conn c = (m.call conn).1 := by
  obtain ⟨name, m', hname, -, hbuild, hstays⟩ := h
  have heq : m = m' := by
    induction hbuilt with
    | built hname' hbuild' =>
      rw [hname] at hname'
      cases hname'
      exact Except.ok.inj (hbuild'.symm.trans hbuild)
    | called pre conn' ih =>
      rw [ih]
      exact hstays conn'
  rw [sniMeaning, hname, Option.bind_some, hbuild, heq]
  rfl

/-- A rule whose calls have such matchers matches what its expression is true of. -/
theorem ruleMatches_expr {rule : String} {e : Expr Call} (hread : read rule = some e)
    (hsteady : e.All (Steady env)) (t : String) :
    RuleMatches env rule t ↔
      ∀ conn : TcpMuxer.ConnData, conn.serverName = t → e.value (sniMeaning env conn) = true := by
  have hbuildable : e.All (Buildable (tcpFuncs env.engines)) := by
    refine hsteady.imp ?_
    rintro c ⟨name, m, hname, hcheck, hbuild, -⟩
    exact ⟨name, m, hname, hcheck, hbuild⟩
  obtain ⟨tree, htree⟩ := (compile_ok_iff).mpr
    ⟨e, hread, hbuildable⟩
  have hvalue : ∀ conns conn, ((tree.after (kind TcpMuxer.Matcher.call) conns).matchOn
      (kind TcpMuxer.Matcher.call) conn).1 = e.value (sniMeaning env conn) := by
    intro conns conn
    obtain ⟨e', d, hread', hd, hmatch⟩ := matchOn_compiled htree conns
    obtain rfl : e' = e := Option.some.inj (hread'.symm.trans hread)
    have hcalls : d.All fun x => Steady env x.1 := by
      rw [← hd.calls] at hsteady
      exact all_map.mp hsteady
    have hanswers : d.All fun x => sniMeaning env conn x.1 =
        Leaf.answer (kind TcpMuxer.Matcher.call) conn x :=
      (hcalls.and hd.matchers).imp fun x hx => hx.1.answer hx.2 conn
    rw [← hd.calls, value_map, value_congr hanswers]
    exact hmatch conn
  constructor
  · rintro ⟨tree', htree', hmatches⟩ conn hconn
    obtain rfl : tree = tree' := Except.ok.inj (htree.symm.trans htree')
    rw [← hvalue [] conn]
    exact hmatches [] conn hconn
  · intro h
    refine ⟨tree, htree, fun conns conn hconn => ?_⟩
    rw [hvalue]
    exact h conn hconn

theorem IsSniMatcher.steady {m : TcpMuxer.Matcher}
    (hm : IsSniMatcher env h m) : Steady env (sniCall h) := by
  obtain ⟨name, arg, hsafe⟩ := exists_safeSni h
  have hname : (tcpFuncs env.engines).parser.function (sniCall h).name = some name := by
    rw [hsafe.eq]
    exact function_sni hsafe.matcher
  refine ⟨name, m, hname, ?_, hm.built name hname, hm.stays⟩
  simp [Rules.checkRule, hsafe.eq, Ne.symm hsafe.nonempty]

theorem sniMeaning_iff {conn : TcpMuxer.ConnData} (hconn : IsServerName conn.serverName) :
    sniMeaning env conn (sniCall h) = true ↔ h.Covers conn.serverName := by
  obtain ⟨m, hm⟩ := exists_isSniMatcher env h
  obtain ⟨name, m', hname, -, hbuild, -⟩ := hm.steady
  rw [sniMeaning, hname, Option.bind_some, hm.built name hname]
  exact hm.matches_iff conn hconn

/-- The rule for all server names. -/
theorem ruleMatches_any (env : SniEnv) (t : String) : RuleMatches env "HostSNI(`*`)" t := by
  have hread : read "HostSNI(`*`)" = some (.leaf ⟨"HostSNI", ["*"]⟩) := by decide +kernel
  have hbuild : buildMatcher (tcpFuncs env.engines) "HostSNI" ["*"] = .ok .anySNI := rfl
  have hsteady : Steady env ⟨"HostSNI", ["*"]⟩ :=
    ⟨"HostSNI", .anySNI, function_sni (by simp), rfl, hbuild, fun _ => rfl⟩
  rw [ruleMatches_expr hread hsteady]
  intro conn _
  show sniMeaning env conn ⟨"HostSNI", ["*"]⟩ = true
  rw [sniMeaning, function_sni (by simp), Option.bind_some, hbuild]
  rfl

/-- **The rule of hostnames** matches the server names that the hostnames cover. -/
theorem hostSNIRule_matches (env : SniEnv) (hosts : List Hostname) {t : String}
    (ht : IsServerName t) : RuleMatches env (hostSNIRule hosts).1 t ↔ CoveredBy hosts t := by
  by_cases hne : hosts = []
  · subst hne
    exact iff_of_true (ruleMatches_any env t) (.inl rfl)
  · obtain ⟨h, hs, hmem, hrule⟩ := exists_sniExpr hne
    have hsteady : (sniExpr h hs).All (Steady env) := by
      apply all_sniExpr
      intro h
      obtain ⟨m, hm⟩ := exists_isSniMatcher env h
      exact hm.steady
    have hvalue : ∀ conn, conn.serverName = t →
        ((sniExpr h hs).value (sniMeaning env conn) = true ↔ CoveredBy hosts t) := by
      rintro conn rfl
      have hany : (sniExpr h hs).value (sniMeaning env conn) =
          (h :: hs).any fun h => sniMeaning env conn (sniCall h) := by
        simp [sniExpr, value, value_disj, any_map, Function.comp_def]
      simp only [hany, any_eq_true, sniMeaning_iff ht, hmem]
      exact (or_iff_right hne).symm
    rw [hrule, ruleMatches_expr (read_sniExpr h hs) hsteady]
    constructor
    · intro h
      exact (hvalue ⟨t, "", []⟩ rfl).mp (h ⟨t, "", []⟩ rfl)
    · intro h conn hconn
      exact (hvalue conn hconn).mpr h

end Ingress.Gateway
