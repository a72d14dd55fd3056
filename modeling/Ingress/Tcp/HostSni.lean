import Ingress.Tcp.SniDomains

/-! # Host Names of Connections

    The matchers `HostSNI` of the two syntaxes of rules (`pkg/muxer/tcp`), on the connections that
    `NewConnData` describes.  That of the old syntax makes its hosts lower case when it is built.
    That of the new one never does, and cuts a period from the host it has captured each time the
    server name is not the host.

    * `newConnData`, `hostSNIV2`, `matchHosts`: the code, beside `hostSNI`.
    * `TellsHost`: both matchers tell whether a server name is the host, whatever was asked before.
    * `tellsHost_iff`: for which hosts they do. -/

open List Ingress.TcpMuxer Char Text

namespace Ingress.SniCheck

/-! ## The code -/

/-- `NewConnData`, with the outcome of `net.SplitHostPort` on the remote address. -/
def Env.newConnData (env : Env) (serverName : String) (remoteIP : Option String)
    (alpnProtos : List String) : Option ConnData :=
  remoteIP.map fun ip => ⟨env.canonicalDomain (env.canonicalDomain serverName), ip, alpnProtos⟩

/-- `hostSNIV2`: the hosts that its matcher has captured. -/
def Env.hostSNIV2 (env : Env) (hosts : List String) : Except String (List String) :=
  if hosts = [] then .error "empty value for \"HostSNI\" matcher is not allowed"
  else hosts.mapM fun host =>
    if host = "*" then .ok host
    else if hostOrIP host then .ok (env.lower host)
    else .error ("invalid value for \"HostSNI\" matcher, " ++ host.quote ++
      " is not a valid hostname or IP")

/-- The matcher of `hostSNIV2`. -/
def matchHosts (hosts : List String) (conn : ConnData) : Bool :=
  if hosts.head? = some "*" then true
  else if conn.serverName = "" then false
  else hosts.any fun host =>
    host = "*" || host = conn.serverName || trimPeriod host = conn.serverName

/-- A matcher after it was asked about connections. -/
def askedOn (m : Matcher) (conns : List ConnData) : Matcher :=
  conns.foldl (fun m conn => (m.call conn).2) m

/-! ## What the matchers are for -/

/-- A server name: characters of ASCII, and no white space. -/
def isServerName (s : String) : Bool :=
  s.toList.all fun c => 32 < c.toNat && c.toNat < 128

/-- The server name is the host, with or without its period, whatever the case of the letters. -/
def IsHost (env : Env) (host s : String) : Prop :=
  s ≠ "" ∧ (env.lower s = env.lower host ∨ env.lower s = trimPeriod (env.lower host))

/-- The matchers that are built for `spelled` tell whether a server name is the host, whatever
    connections they were asked about before. -/
def TellsHost (env : Env) (host spelled : String) : Prop :=
  ∃ m hosts, hostSNI spelled = .ok m ∧ env.hostSNIV2 [spelled] = .ok hosts ∧
    ∀ s remoteIP alpnProtos conn, isServerName s = true →
      env.newConnData s remoteIP alpnProtos = some conn →
      ∀ earlier : List ConnData,
        (∀ c ∈ earlier, ∃ s' ip protos, env.newConnData s' ip protos = some c) →
        (((askedOn m earlier).call conn).1 = true ↔ IsHost env host s) ∧
          (matchHosts hosts conn = true ↔ IsHost env host s)

/-! ## Letters -/

variable {env : Env} {s h : String}

theorem toLower_of_serverName (hs : isServerName s = true) {c : Char} (hc : c ∈ s.toList) :
    isSpace c = false ∧ isSpace (env.toLower c) = false ∧
      env.toLower (env.toLower c) = env.toLower c := by
  have hall : ∀ n < 128, 32 < n → isSpace (ofNat n) = false ∧
      isSpace (ofNat n).toLower = false ∧ (ofNat n).toLower.toNat < 128 ∧
      (ofNat n).toLower.toLower = (ofNat n).toLower := by decide +kernel
  obtain ⟨hlow, hhigh⟩ : 32 < c.toNat ∧ c.toNat < 128 := by
    simpa using all_eq_true.mp hs c hc
  have hchar := hall c.toNat hhigh hlow
  rw [ofNat_toNat] at hchar
  rw [env.toLower_ascii c hhigh, env.toLower_ascii _ hchar.2.2.1]
  exact ⟨hchar.1, hchar.2.1, hchar.2.2.2⟩

open Env

/-- The server name that a connection has. -/
theorem serverName_eq (hs : isServerName s = true) {remoteIP : Option String} {alpnProtos : List String}
    {conn : ConnData} (hconn : env.newConnData s remoteIP alpnProtos = some conn) :
    conn.serverName = env.lower s := by
  obtain ⟨ip, -, rfl⟩ := Option.map_eq_some_iff.mp hconn
  have hlower : ∀ c ∈ (env.lower s).toList, isSpace c = false := by
    simp only [lower, String.toList_ofList, forall_mem_map]
    exact fun c hc => (toLower_of_serverName hs hc).2.1
  simp only [canonicalDomain]
  rw [trimSpace_eq_self fun c hc => (@toLower_of_serverName env s hs c hc).1,
    trimSpace_eq_self hlower]
  simp only [lower, String.toList_ofList, map_map]
  exact congrArg _ (map_congr_left fun c hc => (toLower_of_serverName hs hc).2.2)

theorem isServerName_of_host (hh : hostOrIP h = true) : isServerName h = true := by
  simp only [hostOrIP, Bool.and_eq_true] at hh
  refine all_eq_true.mpr fun c hc => ?_
  have hchar := all_eq_true.mp hh.2 c hc
  simp only [isHostChar, isAlphanum] at hchar
  delta isAlpha at hchar
  delta isUpper isLower isDigit at hchar
  simp only [Bool.or_eq_true, Bool.and_eq_true, decide_eq_true_eq, UInt32.le_iff_toNat_le] at hchar
  rw [Bool.and_eq_true, decide_eq_true_eq, decide_eq_true_eq]
  rcases hchar with (((((h | h) | h) | rfl) | rfl) | rfl) | rfl
  iterate 3 exact ⟨lt_of_lt_of_le (by decide) h.1, lt_of_le_of_lt h.2 (by decide)⟩
  all_goals decide

theorem length_lower : (env.lower s).toList.length = s.toList.length := by
  simp [lower]

theorem lower_eq_empty : env.lower s = "" ↔ s = "" := by
  rw [← String.toList_eq_nil_iff, ← length_eq_zero_iff, length_lower, length_eq_zero_iff,
    String.toList_eq_nil_iff]

/-! ## Calls -/

theorem hostSNI_of_host (hh : hostOrIP h = true) : h ≠ "*" ∧ h ≠ "" ∧
    hostSNI h = .ok (.hostSNI h) ∧ env.hostSNIV2 [h] = .ok [env.lower h] := by
  have hne : ∀ h', hostOrIP h' = false → h ≠ h' := by
    rintro h' hno rfl
    exact absurd hh (by simp [hno])
  have hstar := hne "*" (by decide)
  refine ⟨hstar, hne "" (by decide), ?_⟩
  simp [hostSNI, hostSNIV2, hstar, hh, pure, Except.pure, bind, Except.bind]

theorem call_hostSNI {conn : ConnData} : ((Matcher.hostSNI h).call conn).1 = true ↔
    conn.serverName ≠ "" ∧ (h = conn.serverName ∨ trimPeriod h = conn.serverName) := by
  simp only [Matcher.call]
  split
  · simp_all
  · split <;> simp_all

/-- A host without a period at its end is never changed. -/
theorem askedOn_eq (hlast : h.toList.getLast? ≠ some '.') (conns : List ConnData) :
    askedOn (.hostSNI h) conns = .hostSNI h := by
  induction conns with
  | nil => rfl
  | cons conn conns ih =>
    have hcall : ((Matcher.hostSNI h).call conn).2 = .hostSNI h := by
      simp only [Matcher.call, trimPeriod_eq_self hlast]
      split
      · rfl
      · split <;> rfl
    rw [askedOn, foldl_cons, hcall]
    exact ih

/-- **When `HostSNI` tells the host**: for a host in lower case, without a period at its end. -/
theorem tellsHost_iff (env : Env) (host spelled : String) (hhost : hostOrIP spelled = true)
    (hcase : env.lower spelled = env.lower host) :
    TellsHost env host spelled ↔ env.lower spelled = spelled ∧ spelled.toList.getLast? ≠ some '.' := by
  obtain ⟨hstar, hne, hv3, hv2⟩ := hostSNI_of_host hhost
  have hname := isServerName_of_host hhost
  constructor
  · rintro ⟨m, hosts, hm, -, htells⟩
    obtain rfl := Except.ok.inj (hv3.symm.trans hm)
    obtain ⟨conn, hconn⟩ : ∃ conn, env.newConnData spelled (some "") [] = some conn := ⟨_, rfl⟩
    have hown := fun earlier hearlier =>
      (htells spelled _ _ conn hname hconn earlier hearlier).1.mpr ⟨hne, .inl hcase⟩
    have hfirst := call_hostSNI.mp (hown [] (by simp))
    rw [serverName_eq hname hconn] at hfirst
    have hlower : env.lower spelled = spelled := by
      rcases hfirst.2 with hsame | hsame
      · exact hsame.symm
      · -- a name of the same length is not cut
        rcases trimPeriod_cases spelled with hkept | hcut
        · exact (hkept.trans hsame).symm
        · have hlen := congrArg (·.toList.length) hcut
          simp [hsame, length_lower] at hlen
    refine ⟨hlower, fun hlast => ?_⟩
    -- after another name the period is gone
    obtain ⟨other, hother⟩ : ∃ conn, env.newConnData "x" (some "") [] = some conn := ⟨_, rfl⟩
    have hx : other.serverName = "x" := by
      rw [serverName_eq (by decide) hother]
      simp [lower, env.toLower_ascii 'x' (by decide)]
    obtain ⟨init, hinit⟩ := getLast?_eq_some_iff.mp hlast
    obtain rfl : spelled = String.ofList init ++ "." := String.toList_injective (by simp [hinit])
    have hmiss : String.ofList init ++ "." ≠ "x" := by
      rintro heq
      simp [heq] at hlast
    have hagain := hown [other] fun c hc => ⟨_, _, _, mem_singleton.mp hc ▸ hother⟩
    have hcut : askedOn (.hostSNI (String.ofList init ++ ".")) [other] = .hostSNI (String.ofList init) := by
      simp [askedOn, Matcher.call, hx, hmiss, trimPeriod_append]
    rw [hcut, call_hostSNI, serverName_eq hname hconn, hlower] at hagain
    rcases hagain.2 with hsame | hsame
    · simpa using congrArg (·.toList.length) hsame
    · rcases trimPeriod_cases (String.ofList init) with hkept | hcut
      · simpa using congrArg (·.toList.length) (hkept.trans hsame)
      · have hlen := congrArg (·.toList.length) hcut
        simp [hsame] at hlen
  · rintro ⟨hlower, hlast⟩
    refine ⟨_, _, hv3, hv2, fun s remoteIP alpnProtos conn hs hconn earlier _ => ?_⟩
    rw [askedOn_eq hlast, call_hostSNI, IsHost, ← hcase, hlower, trimPeriod_eq_self hlast, matchHosts,
      serverName_eq hs hconn]
    by_cases hs : s = ""
    · simp [hs, hstar, lower]
    · simp [hs, hstar, lower_eq_empty, trimPeriod_eq_self hlast, eq_comm (a := spelled)]

theorem tellsHost_example : hostOrIP "example.com" = true ∧
    TellsHost asciiEnv "Example.com" "example.com" :=
  ⟨by decide, (tellsHost_iff asciiEnv "Example.com" "example.com" (by decide) (by decide)).mpr (by decide)⟩

/-- The rule of the new syntax for a host with a capital letter matches no server name. -/
theorem capital_not_told : ¬ TellsHost asciiEnv "Example.com" "Example.com" := by
  rintro ⟨m, hosts, hm, -, htells⟩
  obtain rfl := Except.ok.inj ((@hostSNI_of_host asciiEnv _ (by decide)).2.2.1.symm.trans hm)
  have hcall := (htells "example.com" (some "10.0.0.1") [] _ (by decide) rfl [] (by simp)).1.mpr
    ⟨by decide, .inl (by decide)⟩
  exact absurd hcall (by decide +kernel)

end Ingress.SniCheck
