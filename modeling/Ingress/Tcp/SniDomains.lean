import Ingress.Tcp.SniCheck

/-! # Domains of the SNI Check

    The rule of a domain is a text into which the domain is inserted between back
    quotes.  When no domain has a character that a raw string does not keep, the
    route of a domain asks for that domain, and the matcher drops a period at its
    end each time it is asked for another name.

    * `routeOf`: the route of a domain after its host has been trimmed some times.
    * `handshakes_iff`: when the handshakes agree with the table of the check.
    * `guarded_iff`: when requests are served over the options of their host. -/

open List BoolExpr Outcome Dispatch Ingress.Rules Ingress.Muxer Ingress.TcpMuxer Function Text

namespace Ingress.SniCheck

variable {env : Env}

/-! ## The route of a domain -/

/-- A character that a raw string keeps. -/
def isRaw (c : Char) : Bool :=
  c ≠ '`' && c ≠ '\r' && !isIllegal c

/-- A domain that a raw string holds as it is. -/
def Plain (d : String) : Prop :=
  ∀ c ∈ d.toList, isRaw c = true

theorem read_hostSNIRule {d : String} (h : Plain d) :
    read (hostSNIRule d) = some (.leaf ⟨"HostSNI", [d]⟩) := by
  have htext : hostSNIRule d = String.ofList (textOf (.leaf ⟨"HostSNI", [d]⟩)) :=
    (textOf_call "HostSNI" d).symm
  have hname : isName "HostSNI" = true := by decide +kernel
  have hraw : ∀ c ∈ d.toList, (c ≠ '`' ∧ c ≠ '\r') ∧ isIllegal c = false := fun c hc => by
    simpa [isRaw] using h c hc
  have hplain : (⟨"HostSNI", [d]⟩ : Call).isPlain = true := by
    simpa [Call.isPlain, hname] using fun c hc => (hraw c hc).1.1
  have hlegal : (⟨"HostSNI", [d]⟩ : Call).isLegal = true := by
    simpa [Call.isLegal] using fun c hc => (hraw c hc).2
  have hvalue : rawValue d = d := rawValue_eq fun hcr => (hraw _ hcr).1.2 rfl
  have hread := read_textOf (e := .leaf ⟨"HostSNI", [d]⟩) trivial hplain
  rw [@legal_textOf (.leaf ⟨"HostSNI", [d]⟩) hplain hlegal, if_neg Bool.false_ne_true] at hread
  simpa [htext, Expr.map, Call.raw, hvalue] using hread

/-- The route of a domain, after a period at the end of its host was dropped `j` times. -/
def routeOf (config d : String) (j : ℕ) : Route Matcher String :=
  if d = "*" then
    { matchers := .matcher (.built .anySNI), handler := config, catchAll := true, priority := -1 }
  else
    { matchers := .matcher (.built (.hostSNI (trimPeriod^[j] d))), handler := config
      catchAll := false, priority := (hostSNIRule d).utf8ByteSize }

/-- The domains whose rules are accepted. -/
def isHost (d : String) : Bool :=
  d = "*" || hostOrIP d

theorem function_hostSNI (engines : Engines) :
    (tcpFuncs engines).parser.function "HostSNI" = some "HostSNI" := by
  have hparser : (tcpFuncs engines).parser =
      ⟨["ALPN", "ClientIP", "HostSNI", "HostSNIRegexp"]⟩ := rfl
  rw [hparser]
  decide +kernel

theorem parse_hostSNIRule {p : Rules.Parser} (hp : p.function "HostSNI" = some "HostSNI")
    {d : String} (h : Plain d) : p.parse (hostSNIRule d) = .ok (matcherFunc "HostSNI" [d]) := by
  simp [Rules.Parser.parse, read_hostSNIRule h, Rules.Parser.evaluate, hp]

theorem isCatchAll_hostSNI (d : String) :
    isCatchAll (.matcher "HostSNI" false [d]) = decide (d = "*") := by
  have hfold : equalFold "HostSNI" "HostSNI" = true := by decide +kernel
  simp [isCatchAll, hfold]

theorem getRulePriority_hostSNIRule {d : String} (h : Plain d) :
    getRulePriority (hostSNIRule d) =
      if d = "*" then -1 else ((hostSNIRule d).utf8ByteSize : ℤ) := by
  have hp : (Rules.Parser.mk ["HostSNI"]).function "HostSNI" = some "HostSNI" := by decide +kernel
  rw [getRulePriority, parse_hostSNIRule hp h]
  simp only [matcherFunc, isCatchAll_hostSNI, decide_eq_true_eq]

/-- What the matcher of a domain has captured. -/
def matcherOf (d : String) : Matcher :=
  if d = "*" then .anySNI else .hostSNI d

theorem addRule_hostSNI (engines : Engines) (d : String) :
    (addRule (kind Matcher.call) (tcpFuncs engines) (.matcher "HostSNI" false [d])).toOption =
      if isHost d then some (.matcher (.built (matcherOf d))) else none := by
  have hbuild : buildMatcher (tcpFuncs engines) "HostSNI" [d] = hostSNI d := rfl
  by_cases hempty : d = ""
  · subst hempty
    rfl
  have hcheck : checkRule "HostSNI" [d] = .ok () := by
    simp [checkRule, Ne.symm hempty]
  simp only [addRule, hcheck, hbuild, hostSNI, isHost, matcherOf]
  by_cases hstar : d = "*"
  · subst hstar
    rfl
  · by_cases hhost : hostOrIP d = true
    · simp only [hstar, hhost, if_true, if_false, decide_false, Bool.false_or]
      rfl
    · simp only [hstar, hhost, if_false, decide_false, Bool.false_or, Bool.false_eq_true]
      rfl

theorem route_forwarderRoute (configs : Finmap fun _ : String => String) {d : String}
    (h : Plain d) :
    ((forwarderRoute configs d).route Matcher.call (tcpFuncs env.engines)
      env.tcpFuncsV2).toOption =
      if isHost d then some (routeOf ((configs.lookup d).getD defaultTLSConfigName) d 0)
      else none := by
  have hfuncs : funcsOf (tcpFuncs env.engines) env.tcpFuncsV2 "" = tcpFuncs env.engines :=
    if_neg (by decide)
  have hadd := addRule_hostSNI env.engines d
  simp only [AddRoute.route, forwarderRoute, hfuncs,
    parse_hostSNIRule (function_hostSNI env.engines) h, getRulePriority_hostSNIRule h]
  cases hmatchers : addRule (kind Matcher.call) (tcpFuncs env.engines)
      (.matcher "HostSNI" false [d]) with
  | error err =>
    rw [hmatchers] at hadd
    split at hadd
    · cases hadd
    · next hhost =>
      rw [if_neg hhost]
      simp only [Except.mapError, bind, Except.bind, matcherFunc, hmatchers]
      rfl
  | ok t =>
    rw [hmatchers] at hadd
    split at hadd
    · next hhost =>
      cases hadd
      rw [if_pos hhost]
      simp only [Except.mapError, bind, Except.bind, matcherFunc, hmatchers, isCatchAll_hostSNI]
      by_cases hstar : d = "*" <;> simp [routeOf, matcherOf, hstar, Except.toOption, pure, Except.pure]
    · cases hadd

/-! ## Periods -/

/-- A name with `k` periods after it. -/
def dotted (s : String) (k : ℕ) : String :=
  s ++ String.ofList (List.replicate k '.')

variable (s : String)

theorem dotted_zero : dotted s 0 = s := by
  simp [dotted]

theorem dotted_succ (k : ℕ) : dotted s (k + 1) = dotted s k ++ "." := by
  apply String.toList_injective
  simp [dotted, replicate_succ']

theorem trimPeriod_append : trimPeriod (s ++ ".") = s := by
  simp [trimPeriod]

theorem trimPeriod_eq_self {s : String} (h : s.toList.getLast? ≠ some '.') : trimPeriod s = s :=
  if_neg h

theorem trimPeriod_cases : s = trimPeriod s ∨ s = trimPeriod s ++ "." := by
  unfold trimPeriod
  split
  · next h =>
    obtain ⟨init, hinit⟩ := getLast?_eq_some_iff.mp h
    refine .inr (String.toList_injective ?_)
    simp [hinit]
  · exact .inl rfl

theorem iterate_trimPeriod_dotted (i j : ℕ) : trimPeriod^[j] (dotted s (i + j)) = dotted s i := by
  induction j with
  | zero => rfl
  | succ j ih => rw [iterate_succ_apply, ← Nat.add_assoc, dotted_succ, trimPeriod_append, ih]

theorem iterate_trimPeriod_eq_self {s : String} (h : s.toList.getLast? ≠ some '.') (j : ℕ) :
    trimPeriod^[j] s = s := by
  induction j with
  | zero => rfl
  | succ j ih => rw [iterate_succ_apply, trimPeriod_eq_self h, ih]

variable {j : ℕ}

/-- What is trimmed to `s` is `s` with periods after it. -/
theorem dotted_of_iterate {s d : String} (h : trimPeriod^[j] d = s) : ∃ k ≤ j, d = dotted s k := by
  induction j generalizing d with
  | zero => exact ⟨0, le_rfl, by rw [dotted_zero]; exact h⟩
  | succ j ih =>
    obtain ⟨k, hk, hd⟩ := ih h
    rcases trimPeriod_cases d with hsame | hperiod
    · exact ⟨k, by omega, hsame.trans hd⟩
    · exact ⟨k + 1, by omega, by rw [dotted_succ, ← hd]; exact hperiod⟩

/-! ## Asking the route of a domain -/

/-- Whether the route of a domain matches a server name. -/
def accepts (d : String) (j : ℕ) (s : String) : Prop :=
  d = "*" ∨ trimPeriod^[j] d = s ∨ trimPeriod^[j + 1] d = s

variable {conn : ConnData}

open Route MatchersTree

theorem ask_routeOf (cfg d : String) (j : ℕ) (hs : conn.serverName ≠ "") :
    (((routeOf cfg d j).ask Matcher.call conn).1 = true ↔ accepts d j conn.serverName) ∧
      ((routeOf cfg d j).ask Matcher.call conn).2 =
        routeOf cfg d (if trimPeriod^[j] d = conn.serverName then j else j + 1) := by
  have hnext : trimPeriod^[j + 1] d = trimPeriod (trimPeriod^[j] d) := iterate_succ_apply' ..
  unfold accepts routeOf
  by_cases hstar : d = "*"
  · simp [hstar, ask, matchOn, MatcherFunc.run, kind, Matcher.call]
  · by_cases hhost : trimPeriod^[j] d = conn.serverName
    · simp [hstar, ask, matchOn, MatcherFunc.run, kind, Matcher.call, hs, hhost]
    · simp [hstar, ask, matchOn, MatcherFunc.run, kind, Matcher.call, hs, hhost, hnext]

/-- However it is asked, the route of a domain stays one. -/
theorem asked_routeOf {cfg d : String} {x : Route Matcher String}
    (h : Asked (ask Matcher.call) (routeOf cfg d j) x) : ∃ j, x = routeOf cfg d j := by
  induction h with
  | refl => exact ⟨j, rfl⟩
  | step _ conn ih =>
    obtain ⟨i, rfl⟩ := ih
    by_cases hs : conn.serverName = ""
    · refine ⟨i, ?_⟩
      unfold routeOf
      split <;>
        simp [ask, matchOn, MatcherFunc.run, kind, Matcher.call, hs]
    · exact ⟨_, (ask_routeOf cfg d i hs).2⟩

/-! ## The routes of the muxer -/

/-- No domain has a character that a raw string does not keep. -/
def Setup.Plain (setup : Setup env) : Prop :=
  ∀ d n, setup.table.lookup d = some n → SniCheck.Plain d

/-- The configuration of a domain. -/
def Setup.config (setup : Setup env) (d : String) : String :=
  (setup.buildEntryPointHandler.hostHTTPTLSConfig.lookup d).getD defaultTLSConfigName

/-- The calls of `AddRoute`. -/
def Setup.adds (setup : Setup env) : List (AddRoute String) :=
  setup.configOrder.map (forwarderRoute setup.buildEntryPointHandler.hostHTTPTLSConfig)

/-- The domains whose rules are accepted, in the order of the loop. -/
def Setup.hosts (setup : Setup env) : List String :=
  setup.configOrder.filter isHost

section Routes

variable {setup : Setup env}

open Setup

theorem muxerHTTPS_eq (conns : List ConnData) : setup.muxerHTTPS conns =
    Muxer.run Matcher.call setup.sorter (tcpFuncs env.engines) env.tcpFuncsV2
      (setup.adds.map .add ++ conns.map .serve) := by
  simp [muxerHTTPS, adds, comp_def]

theorem mem_hosts {d : String} : d ∈ setup.hosts ↔
    isHost d = true ∧ ∃ c, setup.buildEntryPointHandler.hostHTTPTLSConfig.lookup d = some c := by
  rw [hosts, mem_filter, setup.configRanges.mem, and_comm, ← Finmap.lookup_isSome,
    Option.isSome_iff_exists]
  rfl

theorem config_of_table {d n : String} (h : setup.table.lookup d = some n) :
    setup.config d = n := by
  rw [config, setup.config_of_option h]
  rfl

/-- A domain whose rule is accepted is one of the table, or `*` with the default. -/
theorem table_of_hosts {d : String} (h : d ∈ setup.hosts) :
    setup.table.lookup d = some (setup.config d) ∨
      setup.table.lookup d = none ∧ d = "*" ∧ setup.config d = defaultTLSConfigName := by
  obtain ⟨_, c, hc⟩ := mem_hosts.mp h
  have hcfg : setup.config d = c := by
    rw [config, hc]
    rfl
  rw [hcfg]
  exact setup.config_cases hc

theorem star_plain : Plain "*" := by
  simp [SniCheck.Plain, isRaw, isIllegal]

section
variable (hplain : setup.Plain)
include hplain

theorem plain_of_config {d : String} (h : d ∈ setup.configOrder) : Plain d := by
  rw [setup.configRanges.mem, ← Finmap.lookup_isSome, Option.isSome_iff_exists] at h
  obtain ⟨c, hc⟩ := h
  rcases setup.config_cases hc with htable | ⟨_, rfl, _⟩
  · exact hplain d c htable
  · exact star_plain

theorem filterMap_adds :
    (setup.adds.filterMap fun c =>
      (c.route Matcher.call (tcpFuncs env.engines) env.tcpFuncsV2).toOption) =
      setup.hosts.map fun d => routeOf (setup.config d) d 0 := by
  have hfilter : ∀ l : List String, (∀ d ∈ l, Plain d) →
      ((l.map (forwarderRoute setup.buildEntryPointHandler.hostHTTPTLSConfig)).filterMap fun c =>
        (c.route Matcher.call (tcpFuncs env.engines) env.tcpFuncsV2).toOption) =
      (l.filter isHost).map fun d => routeOf (setup.config d) d 0 := by
    intro l hl
    induction l with
    | nil => rfl
    | cons d l ih =>
      have hrest := ih fun e he => hl e (.tail _ he)
      rw [filterMap_map] at hrest
      have hroute := @route_forwarderRoute env
        setup.buildEntryPointHandler.hostHTTPTLSConfig d (hl d (.head _))
      rw [map_cons, filterMap_cons, hroute, filterMap_map, hrest]
      cases hhost : isHost d with
      | true => simp [hhost, config]
      | false => simp [hhost]
  exact hfilter setup.configOrder fun _ => plain_of_config hplain

/-- The routes of the muxer, whatever connections there were. -/
theorem stored_routes (conns : List ConnData) :
    Stored priority (ask Matcher.call)
      (setup.hosts.map fun d => routeOf (setup.config d) d 0) (setup.muxerHTTPS conns).routes := by
  have hstored := run_stored Matcher.call setup.sorter (tcpFuncs env.engines) env.tcpFuncsV2
    (setup.adds.map .add ++ conns.map .serve)
  have hadded : (setup.adds.map Event.add ++ conns.map Event.serve).filterMap
      (Event.entry (AddRoute.route Matcher.call (tcpFuncs env.engines) env.tcpFuncsV2)) =
      setup.hosts.map fun d => routeOf (setup.config d) d 0 := by
    rw [filterMap_append, filterMap_map, filterMap_map, ← filterMap_adds hplain]
    simp [comp_def, Event.entry]
  rwa [hadded, ← muxerHTTPS_eq] at hstored

theorem mem_routes {conns : List ConnData} {x : Route Matcher String}
    (hx : x ∈ (setup.muxerHTTPS conns).routes) :
    ∃ d ∈ setup.hosts, ∃ j, x = routeOf (setup.config d) d j := by
  obtain ⟨y, hy, hasked⟩ := (stored_routes hplain conns).mem hx
  obtain ⟨d, hd, rfl⟩ := mem_map.mp hy
  exact ⟨d, hd, asked_routeOf hasked⟩

theorem mem_routes_of_hosts (conns : List ConnData) {d : String}
    (hd : d ∈ setup.hosts) : ∃ j, routeOf (setup.config d) d j ∈ (setup.muxerHTTPS conns).routes := by
  obtain ⟨x, hx, hasked⟩ := (stored_routes hplain conns).mem_of_added (mem_map_of_mem hd)
  obtain ⟨j, rfl⟩ := asked_routeOf hasked
  exact ⟨j, hx⟩

/-- The options of a handshake: those of a route that matches with the highest
    priority, or the default when none matches. -/
theorem applied_cases (conns : List ConnData) (conn : ConnData) :
    ((∀ x ∈ (setup.muxerHTTPS conns).routes, (x.ask Matcher.call conn).1 = false) ∧
      setup.applied conns conn = defaultTLSConfigName) ∨
    ∃ x ∈ (setup.muxerHTTPS conns).routes, (x.ask Matcher.call conn).1 = true ∧
      (∀ y ∈ (setup.muxerHTTPS conns).routes, (y.ask Matcher.call conn).1 = true →
        y.priority ≤ x.priority) ∧
      setup.applied conns conn = x.handler := by
  have hmatches := @matches_of_sorted _ _ Matcher.call _ (stored_routes hplain conns).sorted conn
  by_cases h : ∃ x ∈ (setup.muxerHTTPS conns).routes, (x.ask Matcher.call conn).1 = true
  · obtain ⟨x, hx, hacc, hmax, hmatch⟩ := hmatches.matching h
    refine .inr ⟨x, hx, hacc, hmax, ?_⟩
    rw [applied, hmatch]
    rfl
  · have hnone : ∀ x ∈ (setup.muxerHTTPS conns).routes, (x.ask Matcher.call conn).1 = false := by
      intro x hx
      exact Bool.eq_false_iff.mpr fun hacc => h ⟨x, hx, hacc⟩
    refine .inl ⟨hnone, ?_⟩
    rw [applied, hmatches.default hnone]
    rfl

end

theorem handler_routeOf (config d : String) (j : ℕ) : (routeOf config d j).handler = config := by
  unfold routeOf
  split <;> rfl

/-! ## Priorities -/

theorem priority_routeOf_star (cfg : String) (j : ℕ) : (routeOf cfg "*" j).priority = -1 := rfl

theorem priority_routeOf {cfg d : String} (j : ℕ) (h : d ≠ "*") :
    (routeOf cfg d j).priority = ((hostSNIRule d).utf8ByteSize : ℤ) := by
  simp [routeOf, h]

theorem utf8ByteSize_dotted (k : ℕ) :
    (hostSNIRule (dotted s k)).utf8ByteSize = (hostSNIRule s).utf8ByteSize + k := by
  have hdots : (String.ofList (replicate k '.')).utf8ByteSize = k := by
    induction k with
    | zero => rfl
    | succ k ih =>
      have hsucc : String.ofList (replicate (k + 1) '.') =
          "." ++ String.ofList (replicate k '.') := by
        apply String.toList_injective
        simp [replicate_succ]
      rw [hsucc, String.utf8ByteSize_append, ih]
      exact Nat.add_comm 1 k
  simp only [hostSNIRule, dotted, String.utf8ByteSize_append, hdots]
  omega

/-! ## When the handshakes agree with the table -/

/-- A domain with periods at its end has the options of the domain without them, and a
    domain that is no host name has the default options. -/
structure Setup.Domains (setup : Setup env) : Prop where
  periods : ∀ s k n, ServerName env s → hostOrIP (dotted s (k + 1)) = true →
    setup.table.lookup (dotted s (k + 1)) = some n → n = setup.options s
  hosts : ∀ s, ServerName env s → hostOrIP s = false → setup.options s = defaultTLSConfigName

theorem serverName_star : ServerName env "*" where
  nonempty := by decide
  lower := by
    have hstar : env.toLower '*' = '*' := env.toLower_ascii '*' (by decide)
    have hlist : "*".toList = ['*'] := rfl
    rw [Env.lower, hlist, map_singleton, hstar]
  period := by decide
  trimmed := by decide +kernel

theorem hostOrIP_of_dotted {s : String} {k : ℕ} (hs : s ≠ "") (h : hostOrIP (dotted s k) = true) :
    hostOrIP s = true := by
  simp only [hostOrIP, dotted, Bool.and_eq_true, String.toList_append, all_append] at h ⊢
  exact ⟨by simpa using hs, h.2.1⟩

theorem accept_iff {cfg d : String} (hs : ServerName env conn.serverName) :
    ((routeOf cfg d j).ask Matcher.call conn).1 = true ↔ accepts d j conn.serverName :=
  (ask_routeOf cfg d j hs.nonempty).1

/-- The route of a server name that is a domain matches it. -/
theorem accept_self {cfg : String} (hs : ServerName env conn.serverName) :
    ((routeOf cfg conn.serverName j).ask Matcher.call conn).1 = true :=
  (accept_iff hs).mpr (.inr (.inl (iterate_trimPeriod_eq_self hs.period j)))

/-- A route that matches is that of `*`, or of the server name with periods after it. -/
theorem dotted_of_accepts {d s : String} (h : accepts d j s) :
    d = "*" ∨ ∃ k ≤ j + 1, d = dotted s k := by
  rcases h with hstar | hnow | hnext
  · exact .inl hstar
  · obtain ⟨k, hk, hd⟩ := dotted_of_iterate hnow
    exact .inr ⟨k, by omega, hd⟩
  · exact .inr (dotted_of_iterate hnext)

theorem hostOrIP_of_hosts {d : String} (h : d ∈ setup.hosts) (hstar : d ≠ "*") :
    hostOrIP d = true := by
  have hhost := (mem_hosts.mp h).1
  simpa [isHost, hstar] using hhost

theorem handshakes_of_domains (hplain : setup.Plain) (h : setup.Domains) : setup.Handshakes := by
  intro conns conn hs
  -- a server name that has no route of its own has the default options
  have hdef : conn.serverName ∉ setup.hosts →
      setup.options conn.serverName = defaultTLSConfigName := by
    intro hnot
    cases hhost : hostOrIP conn.serverName with
    | false => exact h.hosts _ hs hhost
    | true =>
      cases hlook : setup.table.lookup conn.serverName with
      | none =>
        rw [options, hlook]
        rfl
      | some n =>
        refine absurd (mem_hosts.mpr ⟨?_, n, setup.config_of_option hlook⟩) hnot
        simp [isHost, hhost]
  rcases applied_cases hplain conns conn with ⟨hnone, happlied⟩ | ⟨x, hx, hacc, hmax, happlied⟩
  · rw [happlied, hdef]
    intro hmem
    obtain ⟨j, hj⟩ := mem_routes_of_hosts hplain conns hmem
    have hfalse := hnone _ hj
    rw [accept_self hs] at hfalse
    cases hfalse
  · obtain ⟨d, hd, j, rfl⟩ := mem_routes hplain hx
    rw [happlied, handler_routeOf]
    by_cases hstar : d = "*"
    · subst hstar
      have hcfg : setup.config "*" = defaultTLSConfigName := by
        rcases table_of_hosts hd with htable | ⟨_, _, hcfg⟩
        · have hoptions := h.hosts "*" serverName_star (by decide +kernel)
          rwa [options, htable] at hoptions
        · exact hcfg
      rw [hcfg]
      by_cases hself : conn.serverName = "*"
      · rw [hself, h.hosts "*" serverName_star (by decide +kernel)]
      · rw [hdef]
        intro hmem
        obtain ⟨i, hi⟩ := mem_routes_of_hosts hplain conns hmem
        -- its own route would have come first
        have hle := hmax _ hi (accept_self hs)
        rw [priority_routeOf_star, priority_routeOf i hself] at hle
        omega
    · rcases dotted_of_accepts ((accept_iff hs).mp hacc) with hd' | ⟨k, _, rfl⟩
      · exact absurd hd' hstar
      · have htable : setup.table.lookup (dotted conn.serverName k) =
            some (setup.config (dotted conn.serverName k)) := by
          rcases table_of_hosts hd with htable | ⟨_, hd', _⟩
          · exact htable
          · exact absurd hd' hstar
        cases k with
        | zero =>
          rw [dotted_zero] at htable ⊢
          rw [options, htable]
          rfl
        | succ k => exact h.periods _ _ _ hs (hostOrIP_of_hosts hd hstar) htable

/-! ## Strangers -/

theorem serverName_stranger (extra : ℕ) : ServerName env (setup.stranger extra) where
  nonempty := by
    intro hempty
    have hlen := length_stranger setup extra
    rw [hempty] at hlen
    simp at hlen
  lower := lower_stranger setup extra
  period := by simp [stranger, getLast?_replicate]
  trimmed := by
    apply trimSpace_eq_self
    intro c hc
    have hc : c = 'a' := by
      simp only [stranger, String.toList_ofList, mem_replicate] at hc
      exact hc.2
    rw [hc]
    decide +kernel

/-- No domain is a stranger, with or without periods. -/
theorem dotted_stranger {d : String} (hd : d ∈ setup.hosts) (k : ℕ) :
    d ≠ dotted (setup.stranger 0) k := by
  intro heq
  have hlen : (setup.stranger 0).length ≤ d.length := by
    rw [heq, dotted, String.length_append]
    omega
  rw [length_stranger] at hlen
  rcases table_of_hosts hd with htable | ⟨_, hstar, _⟩
  · rw [lookup_of_longer setup (by omega)] at htable
    cases htable
  · rw [hstar] at heq
    have hhead := congrArg (fun s => s.toList.head?) heq
    simp [dotted, stranger, replicate_succ] at hhead

/-- A connection to a stranger. -/
def Setup.strangerConn (setup : Setup env) : ConnData where
  serverName := setup.stranger 0
  remoteIP := ""
  alpnProtos := []

theorem accepts_stranger {d : String} (hd : d ∈ setup.hosts)
    (h : accepts d j (setup.stranger 0)) : d = "*" := by
  rcases dotted_of_accepts h with hstar | ⟨k, _, hk⟩
  · exact hstar
  · exact absurd hk (dotted_stranger hd k)

/-- A connection to a stranger drops one period from every host. -/
theorem ask_stranger {d : String} (hd : d ∈ setup.hosts) (cfg : String) (j : ℕ) :
    ((routeOf cfg d j).ask Matcher.call setup.strangerConn).2 = routeOf cfg d (j + 1) := by
  have hne : trimPeriod^[j] d ≠ setup.strangerConn.serverName := by
    intro heq
    obtain ⟨k, _, hk⟩ := dotted_of_iterate heq
    exact dotted_stranger hd k hk
  rw [(ask_routeOf cfg d j (serverName_stranger 0).nonempty).2, if_neg hne]

theorem exists_map_of_perm {α β : Type} {f : β → α} {l : List α} {m : List β}
    (h : l.Perm (m.map f)) : ∃ L : List β, L.Perm m ∧ l = L.map f := by
  have hmap : List.Forall₂ (fun x d => x = f d) (m.map f) m :=
    forall₂_map_left_iff.mpr (forall₂_same.mpr fun _ _ => rfl)
  obtain ⟨L, hL, hperm⟩ := perm_comp_forall₂ h hmap
  refine ⟨L, hperm, ?_⟩
  rwa [← forall₂_eq_eq_eq, forall₂_map_right_iff]

theorem routes_strangers (hplain : setup.Plain) : ∃ L : List String, L.Perm setup.hosts ∧ ∀ j,
    (setup.muxerHTTPS (replicate j setup.strangerConn)).routes =
      L.map fun d => routeOf (setup.config d) d j := by
  -- the routes before any connection
  obtain ⟨L, hL, hstart⟩ : ∃ L : List String, L.Perm setup.hosts ∧
      (setup.muxerHTTPS []).routes = L.map fun d => routeOf (setup.config d) d 0 := by
    have hperm := (run_adds setup.sorter
      (AddRoute.route Matcher.call (tcpFuncs env.engines) env.tcpFuncsV2)
      (ask Matcher.call) setup.adds).1
    rw [filterMap_adds hplain] at hperm
    obtain ⟨L, hL, hroutes⟩ := exists_map_of_perm hperm
    refine ⟨L, hL, ?_⟩
    rw [muxerHTTPS_eq, run_routes, map_nil, append_nil]
    exact hroutes
  refine ⟨L, hL, fun j => ?_⟩
  induction j with
  | zero => exact hstart
  | succ j ih =>
    have hserve : (setup.muxerHTTPS (replicate (j + 1) setup.strangerConn)).routes =
        (select (ask Matcher.call setup.strangerConn)
          (setup.muxerHTTPS (replicate j setup.strangerConn)).routes).2 := by
      rw [muxerHTTPS_eq, muxerHTTPS_eq, run_routes, run_routes, replicate_succ', map_append,
        ← append_assoc, Dispatch.run, foldl_append]
      rfl
    have hsorted := (stored_routes hplain (replicate j setup.strangerConn)).sorted
    rw [hserve, select_map hsorted, ih, map_map]
    · exact map_congr_left fun d hd => ask_stranger (hL.mem_iff.mp hd) _ j
    · rw [ih]
      intro x hx hacc y hy hle
      obtain ⟨d, hd, rfl⟩ := mem_map.mp hx
      obtain ⟨e, he, rfl⟩ := mem_map.mp hy
      have hstar := accepts_stranger (hL.mem_iff.mp hd)
        ((accept_iff (serverName_stranger 0)).mp hacc)
      subst hstar
      -- only the route of `*` can come after that of `*`
      have hstar : e = "*" := by
        by_contra hne
        rw [priority_routeOf_star, priority_routeOf j hne] at hle
        omega
      subst hstar
      rfl

/-- The options of a handshake whose server name no domain asks for. -/
theorem applied_star (hplain : setup.Plain) {conns : List ConnData}
    (hs : ServerName env conn.serverName)
    (h : ∀ d ∈ setup.hosts, ∀ j, accepts d j conn.serverName → d = "*") :
    setup.applied conns conn =
      if "*" ∈ setup.hosts then setup.config "*" else defaultTLSConfigName := by
  rcases applied_cases hplain conns conn with ⟨hnone, happlied⟩ | ⟨x, hx, hacc, _, happlied⟩
  · rw [if_neg, happlied]
    intro hmem
    obtain ⟨j, hj⟩ := mem_routes_of_hosts hplain conns hmem
    have hfalse := hnone _ hj
    cases hfalse
  · obtain ⟨d, hd, j, rfl⟩ := mem_routes hplain hx
    obtain rfl := h d hd j ((accept_iff hs).mp hacc)
    rw [if_pos hd, happlied, handler_routeOf]

theorem domains_of_handshakes (hplain : setup.Plain) (h : setup.Handshakes) : setup.Domains where
  periods := by
    intro s k n hs hhost hlook
    have hstar : dotted s (k + 1) ≠ "*" := by
      intro heq
      rw [heq] at hhost
      revert hhost
      decide +kernel
    have hmem : dotted s (k + 1) ∈ setup.hosts :=
      mem_hosts.mpr ⟨by simp [isHost, hhost], n, setup.config_of_option hlook⟩
    obtain ⟨L, hL, hroutes⟩ := routes_strangers hplain
    -- after `k` strangers the route of the domain is the first that matches
    have happlied := h (replicate k setup.strangerConn) ⟨s, "", []⟩ hs
    have hacc : ((routeOf (setup.config (dotted s (k + 1))) (dotted s (k + 1)) k).ask Matcher.call
        ⟨s, "", []⟩).1 = true := by
      refine (ask_routeOf _ _ _ hs.nonempty).1.mpr (.inr (.inr ?_))
      have htrim := iterate_trimPeriod_dotted s 0 (k + 1)
      rwa [dotted_zero, Nat.zero_add] at htrim
    have hroute : routeOf (setup.config (dotted s (k + 1))) (dotted s (k + 1)) k ∈
        (setup.muxerHTTPS (replicate k setup.strangerConn)).routes := by
      rw [hroutes]
      exact mem_map_of_mem (hL.mem_iff.mpr hmem)
    rw [← happlied]
    rcases applied_cases hplain (replicate k setup.strangerConn) ⟨s, "", []⟩ with
      ⟨hnone, _⟩ | ⟨x, hx, hxaccept, hmax, hxapplied⟩
    · rw [hnone _ hroute] at hacc
      cases hacc
    · rw [hroutes] at hx
      obtain ⟨e, _, rfl⟩ := mem_map.mp hx
      have hle := hmax _ hroute hacc
      rw [priority_routeOf k hstar, utf8ByteSize_dotted] at hle
      by_cases hestar : e = "*"
      · rw [hestar, priority_routeOf_star] at hle
        omega
      · rcases dotted_of_accepts ((ask_routeOf _ _ _ hs.nonempty).1.mp hxaccept) with
          hstar' | ⟨i, hi, rfl⟩
        · exact absurd hstar' hestar
        · rw [priority_routeOf k hestar, utf8ByteSize_dotted] at hle
          dsimp only at hle
          obtain rfl : i = k + 1 := by omega
          rw [hxapplied, handler_routeOf, config_of_table hlook]
  hosts := by
    intro s hs hhost
    have hstranger : setup.options (setup.stranger 0) = defaultTLSConfigName := by
      rw [options, lookup_of_longer setup (by rw [length_stranger]; omega)]
      rfl
    -- a stranger gets the options of `*`, and so does a name that is no host name
    have hs' := h [] ⟨s, "", []⟩ hs
    have hz' := h [] setup.strangerConn (serverName_stranger 0)
    rw [applied_star hplain (serverName_stranger 0) fun d hd j => accepts_stranger hd] at hz'
    rw [applied_star hplain hs] at hs'
    · exact (hs'.symm.trans hz').trans hstranger
    · intro d hd j haccepts
      by_contra hne
      rcases dotted_of_accepts haccepts with hstar | ⟨k, _, rfl⟩
      · exact hne hstar
      · rw [hostOrIP_of_dotted hs.nonempty (hostOrIP_of_hosts hd hne)] at hhost
        cases hhost

/-- The handshakes of plain domains agree with the table exactly when the domains with
    periods, and those that are no host names, have the right options. -/
theorem handshakes_iff (hplain : setup.Plain) : setup.Handshakes ↔ setup.Domains :=
  ⟨domains_of_handshakes hplain, handshakes_of_domains hplain⟩

end Routes

/-- **Requests are served over the options of their host** exactly when every handshake
    applies the options that the table has for its server name, and every host that
    `EqualFold` takes for a server name has the options of that name.  For plain domains
    the former says that a domain with periods at its end has the options of the domain
    without them, and a domain that is no host name the default ones. -/
theorem guarded_iff (setup : Setup env) :
    (setup.Guarded ↔ setup.Handshakes ∧ setup.Hosts) ∧
    (setup.Plain → (setup.Guarded ↔ setup.Domains ∧ setup.Hosts)) := by
  refine ⟨guarded_iff_agree setup, fun hplain => ?_⟩
  rw [guarded_iff_agree, handshakes_iff hplain]

/-- The letters of ASCII, and the long s, which folds to an ASCII letter but is in lower
    case. -/
def asciiEnv : Env where
  toLower := Char.toLower
  fold := fun c => if c = 'ſ' then 's' else c.toLower
  splitHostPort := fun _ => none
  httpMatchers := ["Host", "Path"]
  engines := ⟨fun _ => .error "", fun _ => .error ""⟩
  tcpFuncsV2 := []
  toLower_ascii := fun _ _ => rfl

/-- One router, with options for one domain. -/
def oneDomain (rule : String) : List RouterHTTP :=
  [⟨"secure@file", rule, some "strict"⟩]

/-- The maps of one domain. -/
theorem ranges_singleton {β : Type} {m : Finmap fun _ : String => β} {d : String} {x : β}
    (h : m = (∅ : Finmap fun _ : String => β).insert d x) : Ranges m [d] := by
  subst h
  refine ⟨by simp, fun k => ?_⟩
  rw [Finmap.mem_insert, mem_singleton]
  exact ⟨.inl, fun h => h.resolve_right Finmap.notMem_empty⟩

/-- A domain with a period at its end. -/
def periodSetup : Setup asciiEnv where
  routers := oneDomain "Host(`foo.`)"
  sniOrder := ["foo."]
  configOrder := ["foo."]
  sorter := Sorter.insertion _
  sniRanges := ranges_singleton (x := ["strict@file"]) (by decide +kernel)
  configRanges := ranges_singleton (x := "strict@file") (by decide +kernel)

/-- A domain with an `s` in it. -/
def secureSetup : Setup asciiEnv where
  routers := oneDomain "Host(`secure`)"
  sniOrder := ["secure"]
  configOrder := ["secure"]
  sorter := Sorter.insertion _
  sniRanges := ranges_singleton (x := ["strict@file"]) (by decide +kernel)
  configRanges := ranges_singleton (x := "strict@file") (by decide +kernel)

theorem periodSetup_table :
    periodSetup.table = (∅ : Finmap fun _ : String => String).insert "foo." "strict@file" := by
  decide +kernel

theorem periodSetup_guarded_iff : periodSetup.Plain ∧
    (periodSetup.Guarded ↔ periodSetup.Domains ∧ periodSetup.Hosts) := by
  have hplain : periodSetup.Plain := by
    intro d n h
    rw [periodSetup_table] at h
    by_cases hd : d = "foo."
    · simp [hd, SniCheck.Plain, isRaw, isIllegal]
    · rw [Finmap.lookup_insert_of_ne _ hd, Finmap.lookup_empty] at h
      cases h
  exact ⟨hplain, (guarded_iff periodSetup).2 hplain⟩

/-- A request for `bar` gets through over the options of `foo.`, and one for `secure`
    over the default options. -/
theorem unguarded :
    (serveHTTP asciiEnv periodSetup.table (requestFor "foo" "bar") = true ∧
      periodSetup.applied [] ⟨"foo", "", []⟩ = "strict@file" ∧
      findTLSOptionName asciiEnv periodSetup.table "bar" true = "default") ∧
    (serveHTTP asciiEnv secureSetup.table (requestFor "ſecure" "secure") = true ∧
      secureSetup.applied [] ⟨"ſecure", "", []⟩ = "default" ∧
      findTLSOptionName asciiEnv secureSetup.table "secure" true = "strict@file") ∧
    ¬ periodSetup.Guarded ∧ ¬ secureSetup.Guarded := by
  have hperiod : serveHTTP asciiEnv periodSetup.table (requestFor "foo" "bar") = true ∧
      periodSetup.applied [] ⟨"foo", "", []⟩ = "strict@file" ∧
      findTLSOptionName asciiEnv periodSetup.table "bar" true = "default" := by
    decide +kernel
  have hsecure : serveHTTP asciiEnv secureSetup.table (requestFor "ſecure" "secure") = true ∧
      secureSetup.applied [] ⟨"ſecure", "", []⟩ = "default" ∧
      findTLSOptionName asciiEnv secureSetup.table "secure" true = "strict@file" := by
    decide +kernel
  refine ⟨hperiod, hsecure, fun h => ?_, fun h => ?_⟩
  · have hserved := h [] ⟨"foo", "", []⟩ (requestFor "foo" "bar") "foo" rfl (by decide +kernel)
      (by decide +kernel) (by decide +kernel) (by decide +kernel) hperiod.1
    rw [hperiod.2.1, getHost_requestFor "foo" (by decide)] at hserved
    exact absurd (hserved.trans hperiod.2.2) (by decide)
  · have hserved := h [] ⟨"ſecure", "", []⟩ (requestFor "ſecure" "secure") "ſecure" rfl
      (by decide +kernel) (by decide +kernel) (by decide +kernel) (by decide +kernel) hsecure.1
    rw [hsecure.2.1, getHost_requestFor "ſecure" (by decide)] at hserved
    exact absurd (hserved.trans hsecure.2.2) (by decide)

end Ingress.SniCheck
