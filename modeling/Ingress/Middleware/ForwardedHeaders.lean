import Ingress.Http.RequestHeader

/-! # Forwarded Headers

    `pkg/middlewares/forwardedheaders`: before a request is routed, the headers that tell about
    its client are written.  Those that the client itself has sent are removed first, unless the
    client is trusted.  The options of the `Connection` field are applied last.

    * `serveHTTP`: the code.
    * `cleaned_eq`: the removal hides what the client has sent.
    * `lookup_removed`: the headers after the options of the connection.
    * `untrusted_headers_same`: an untrusted client has no influence. -/

open Ingress.Http Text

namespace Ingress.ForwardedHeaders

/-! ## The code -/

def xHeaders : List String :=
  ["X-Forwarded-Proto", "X-Forwarded-For", "X-Forwarded-Host", "X-Forwarded-Port",
    "X-Forwarded-Server", "X-Forwarded-Uri", "X-Forwarded-Method", "X-Forwarded-Prefix",
    "X-Forwarded-Tls-Client-Cert", "X-Forwarded-Tls-Client-Cert-Info", "X-Real-Ip"]

/-- `XForwarded`.  The checker of the trusted addresses may be missing. -/
structure XForwarded where
  insecure : Bool
  ipChecker : Option (String → Bool)
  connectionHeaders : List String
  notAppendXForwardedFor : Bool
  hostname : String

def XForwarded.isTrustedIP (x : XForwarded) (addr : String) : Bool :=
  x.ipChecker.any (· addr)

def removeIPv6Zone (clientIP : String) : String :=
  String.ofList (clientIP.toList.takeWhile (· ≠ '%'))

/-- `containsHeader` of `isWebsocketRequest`. -/
def containsHeader (h : HeaderMap) (name value : String) : Bool :=
  ((h.get name).toList.splitOn ',').any fun s => equalFold (trim isSpace s) value

def isWebsocketRequest (req : Request) : Bool :=
  containsHeader req.header "Connection" "upgrade" && containsHeader req.header "Upgrade" "websocket"

def forwardedPort (req : Request) : String :=
  match splitHostPort req.host with
  | some (_, port) => if port.isEmpty then byScheme else port
  | none => byScheme
where
  byScheme : String :=
    let proto := req.header.get "X-Forwarded-Proto"
    if proto = "https" || proto = "wss" then "443" else if req.tls then "443" else "80"

/-- Set a header that is not there, or empty. -/
def setDefault (req : Request) (key value : String) : Request :=
  if (req.header.get key).isEmpty then { req with header := req.header.set key value } else req

/-- The first part of `rewrite`. -/
def rewriteRealIP (req : Request) : Request :=
  match splitHostPort req.remoteAddr with
  | some (clientIP, _) => setDefault req "X-Real-Ip" (removeIPv6Zone clientIP)
  | none => req

/-- The protocol of a request. -/
def proto (req : Request) : String :=
  if isWebsocketRequest req then if req.tls then "wss" else "ws"
  else if req.tls then "https" else "http"

/-- The part of `rewrite` for `X-Forwarded-Host`. -/
def rewriteHost (req : Request) : Request :=
  if req.host.isEmpty then req else setDefault req "X-Forwarded-Host" req.host

/-- The part of `rewrite` for `X-Forwarded-For`. -/
def rewriteFor (req : Request) : Request :=
  let xffs := req.header.values "X-Forwarded-For"
  if xffs.isEmpty then req
  else { req with header := req.header.set "X-Forwarded-For" (", ".intercalate xffs) }

/-- The part of `rewrite` for `X-Forwarded-Server`. -/
def rewriteServer (x : XForwarded) (req : Request) : Request :=
  if x.hostname.isEmpty then req
  else { req with header := req.header.set "X-Forwarded-Server" x.hostname }

def rewrite (x : XForwarded) (outreq : Request) : Request :=
  let outreq := rewriteRealIP outreq
  let outreq := setDefault outreq "X-Forwarded-Proto" (proto outreq)
  let outreq := setDefault outreq "X-Forwarded-Port" (forwardedPort outreq)
  let outreq := rewriteHost outreq
  let outreq := rewriteFor outreq
  rewriteServer x outreq

/-- The header after the loop of `removeConnectionHeaders`, and the options that are kept. -/
def applyOptions (x : XForwarded) (keys : List String) (h : HeaderMap) : HeaderMap × List String :=
  keys.foldl (fun st key =>
    -- the headers that are written here, and those that are allowed, stay
    if xHeaders.contains key then st
    else if x.connectionHeaders.contains key then (st.1, st.2 ++ [key])
    else (st.1.erase key, st.2)) (h, [])

def removeConnectionHeaders (x : XForwarded) (req : Request) : Request :=
  let connection := req.header.values "Connection"
  let reqUpType := if containsToken connection "upgrade" then req.header.get "Upgrade" else ""
  let (h, kept) := applyOptions x (options connection) req.header
  let h := if reqUpType.isEmpty then h else h.set "Upgrade" reqUpType
  let kept := if reqUpType.isEmpty then kept else kept ++ ["Upgrade"]
  { req with
    header := if kept.isEmpty then h.erase "Connection" else h.set "Connection" (",".intercalate kept) }

/-- The removal of the headers that a client which is not trusted has sent. -/
def XForwarded.cleaned (x : XForwarded) (r : Request) : Request :=
  if !x.insecure && !x.isTrustedIP r.remoteAddr then
    { r with header := xHeaders.foldl (fun h key => h.erase key) r.header }
  else r

/-- `ServeHTTP`: the request that the next handler gets.  The flag of its context says that
    `X-Forwarded-For` must not be appended to. -/
def XForwarded.serveHTTP (x : XForwarded) (r : Request) : Request × Bool :=
  (removeConnectionHeaders x (rewrite x (x.cleaned r)), x.notAppendXForwardedFor)

/-! ## Untrusted clients -/

open XForwarded

theorem cleaned_eq {x : XForwarded} {r r' : Request} (hinsecure : x.insecure = false)
    (huntrusted : x.isTrustedIP r.remoteAddr = false) (h : Request.SameBut xHeaders r r') :
    x.cleaned r = x.cleaned r' := by
  have hcleaned : ∀ r₀, r₀.remoteAddr = r.remoteAddr → x.cleaned r₀ =
      { r₀ with header := xHeaders.foldl (fun h key => h.erase key) r₀.header } := by
    intro r₀ haddr
    simp [cleaned, hinsecure, haddr, huntrusted]
  rw [hcleaned r rfl, hcleaned r' h.remoteAddr.symm, h.eq_of_erase]

/-! ## Options of the connection -/

/-- No option removes the header. -/
def XForwarded.exempts (x : XForwarded) (key : String) : Bool :=
  xHeaders.contains key || x.connectionHeaders.contains key

/-- The options that are left in `Connection`. -/
def XForwarded.keptOptions (x : XForwarded) (keys : List String) : List String :=
  keys.filter fun key => !xHeaders.contains key && x.connectionHeaders.contains key

/-- The loop over the options, as one removal. -/
theorem applyOptions_eq (x : XForwarded) (keys : List String) (h : HeaderMap) :
    applyOptions x keys h =
      ((keys.filter (!x.exempts ·)).foldl (fun h key => h.erase key) h, x.keptOptions keys) := by
  unfold applyOptions
  suffices hall : ∀ st : HeaderMap × List String, keys.foldl (fun st key =>
      if xHeaders.contains key then st
      else if x.connectionHeaders.contains key then (st.1, st.2 ++ [key])
      else (st.1.erase key, st.2)) st =
        ((keys.filter (!x.exempts ·)).foldl (fun h key => h.erase key) st.1,
          st.2 ++ x.keptOptions keys) from hall (h, [])
  intro st
  induction keys generalizing st with
  | nil => simp [keptOptions]
  | cons k keys ih =>
    rw [List.foldl_cons, ih]
    by_cases hx : k ∈ xHeaders <;> by_cases hk : k ∈ x.connectionHeaders <;>
      simp [exempts, keptOptions, hx, hk]

/-- The client asks for another protocol, and names it. -/
def Upgrades (req : Request) : Prop :=
  containsToken (req.header.values "Connection") "upgrade" = true ∧ req.header.get "Upgrade" ≠ ""

instance (req : Request) : Decidable (Upgrades req) :=
  inferInstanceAs (Decidable (_ ∧ _))

/-- The text of a list of options, which is missing when there are none. -/
def connectionField (keys : List String) : Option (List String) :=
  if keys = [] then none else some [",".intercalate keys]

/-- Every header after `removeConnectionHeaders`. -/
theorem lookup_removed (x : XForwarded) (req : Request) (key : String) :
    (removeConnectionHeaders x req).header.lookup key =
      let named := options (req.header.values "Connection")
      if key = "Connection" then
        connectionField (x.keptOptions named ++ if Upgrades req then ["Upgrade"] else [])
      else if key = "Upgrade" ∧ Upgrades req then some [req.header.get "Upgrade"]
      else if key ∈ named ∧ x.exempts key = false then none else req.header.lookup key := by
  have hopen : (if containsToken (req.header.values "Connection") "upgrade" then
      req.header.get "Upgrade" else "").isEmpty = true ↔ ¬ Upgrades req := by
    unfold Upgrades
    split <;> simp_all
  simp only [removeConnectionHeaders, applyOptions_eq, hopen, connectionField]
  by_cases hc : key = "Connection"
  · subst hc
    by_cases hu : Upgrades req
    · simp [hu]
    · by_cases hkept : x.keptOptions (options (req.header.values "Connection")) = []
      · simp [hu, hkept]
      · simp [hu, hkept]
  · have hlast : ∀ (h : HeaderMap) (kept : List String), (if kept.isEmpty then h.erase "Connection"
        else h.set "Connection" (",".intercalate kept)).lookup key = h.lookup key := by
      intro h kept
      split
      · exact Finmap.lookup_erase_ne hc
      · exact HeaderMap.lookup_set_ne hc _
    rw [hlast, if_neg hc]
    by_cases hu : Upgrades req
    · by_cases hk : key = "Upgrade"
      · subst hk
        simp [hu, hu.1]
      · rw [if_neg (not_not.mpr hu), HeaderMap.lookup_set_ne hk, lookup_foldl_erase]
        simp [hk]
    · rw [if_pos hu, lookup_foldl_erase]
      simp [hu]

/-- **No option removes a header** that is written here. -/
theorem lookup_removeConnectionHeaders (x : XForwarded) (req : Request) {key : String}
    (hkey : key ∈ xHeaders) :
    (removeConnectionHeaders x req).header.lookup key = req.header.lookup key := by
  have hconn : key ≠ "Connection" := by
    rintro rfl
    exact absurd hkey (by decide)
  have hupgrade : key ≠ "Upgrade" := by
    rintro rfl
    exact absurd hkey (by decide)
  simp [lookup_removed, hconn, hupgrade, exempts, hkey]

/-- `NewXForwarded`, with the checker of the trusted addresses and the name of the host. -/
def newXForwarded (insecure : Bool) (ipChecker : Option (String → Bool))
    (connectionHeaders : List String) (notAppendXForwardedFor : Bool) (hostname : String) : XForwarded where
  insecure
  ipChecker
  connectionHeaders := connectionHeaders.map canonicalMIMEHeaderKey
  notAppendXForwardedFor
  hostname

/-- Exactly the options of the connection are removed from a request.  `listed` are those that
    stay in `Connection`. -/
structure RemovesOptions (x : XForwarded) (req : Request) (listed : List String) : Prop where
  others : ∀ key, key ≠ "Connection" → ¬ (key = "Upgrade" ∧ Upgrades req) → ∀ values,
    ((removeConnectionHeaders x req).header.lookup key = some values ↔
      req.header.lookup key = some values ∧ (key ∉ options (req.header.values "Connection") ∨
        key ∈ xHeaders ∨ key ∈ x.connectionHeaders))
  upgrade : Upgrades req →
    (removeConnectionHeaders x req).header.lookup "Upgrade" = some [req.header.get "Upgrade"]
  connection : (removeConnectionHeaders x req).header.lookup "Connection" =
    connectionField (listed ++ if Upgrades req then ["Upgrade"] else [])

/-- **Exactly the options of the connection are removed**, and `Connection` lists those that are
    allowed and not written here. -/
theorem removes_options (insecure : Bool) (ipChecker : Option (String → Bool))
    (connectionHeaders : List String) (notAppend : Bool) (hostname : String) (req : Request) :
    let x := newXForwarded insecure ipChecker connectionHeaders notAppend hostname
    RemovesOptions x req ((options (req.header.values "Connection")).filter fun key =>
      key ∈ x.connectionHeaders ∧ key ∉ xHeaders) := by
  intro x
  refine ⟨fun key hc hu vals => ?_, fun hu => ?_, ?_⟩
  · simp only [lookup_removed, if_neg hc, if_neg hu]
    by_cases hnamed : key ∈ options (req.header.values "Connection")
    · by_cases hex : x.exempts key = true
      · have hstays : key ∈ xHeaders ∨ key ∈ x.connectionHeaders := by
          simpa [exempts] using hex
        simp [hex, hstays]
      · have hgoes : ¬ (key ∈ xHeaders ∨ key ∈ x.connectionHeaders) := by
          simpa [exempts] using hex
        simp [hex, hnamed, hgoes]
    · simp [hnamed]
  · simp [lookup_removed, hu]
  · rw [lookup_removed, if_pos rfl, keptOptions]
    congr 3
    funext key
    simp [and_comm]

/-- A header that is written here is not listed, although it is configured and named. -/
theorem configured_not_listed : let x := newXForwarded false none ["X-Real-Ip"] false "proxy"
    let req : Request := ⟨"GET", "/", "example.com", "10.0.0.1:4711", false,
      (∅ : HeaderMap).insert "Connection" ["x-real-ip"]⟩
    ¬ RemovesOptions x req ((options (req.header.values "Connection")).filter
      (· ∈ x.connectionHeaders)) := by
  intro x req h
  exact absurd h.connection (by decide +kernel)

/-- **Untrusted clients have no influence** on the forwarded headers: what the next handler gets
    does not depend on those that the client has sent, and the options of the connection leave
    those that were written. -/
theorem untrusted_headers_same (x : XForwarded) (hinsecure : x.insecure = false) (r r' : Request)
    (huntrusted : x.isTrustedIP r.remoteAddr = false) (h : Request.SameBut xHeaders r r') :
    x.serveHTTP r = x.serveHTTP r' ∧
      ∀ key ∈ xHeaders, (x.serveHTTP r).1.header.lookup key =
        (rewrite x (x.cleaned r)).header.lookup key := by
  constructor
  · unfold serveHTTP
    rw [cleaned_eq hinsecure huntrusted h]
  · intro key hkey
    exact lookup_removeConnectionHeaders x _ hkey

/-- A proxy without trusted addresses. -/
def plain : XForwarded := ⟨false, none, [], false, "proxy"⟩

/-- A request with a forged address, and the option to drop it. -/
def forged (values : List String) : Request :=
  ⟨"GET", "/", "example.com", "10.0.0.1:4711", false,
    ((∅ : HeaderMap).insert "Connection" ["X-Real-Ip"]).insert "X-Real-Ip" values⟩

theorem forged_headers_same : plain.isTrustedIP (forged ["1.2.3.4"]).remoteAddr = false ∧
    plain.serveHTTP (forged ["1.2.3.4"]) = plain.serveHTTP (forged []) ∧
      ∀ key ∈ xHeaders, (plain.serveHTTP (forged ["1.2.3.4"])).1.header.lookup key =
        (rewrite plain (plain.cleaned (forged ["1.2.3.4"]))).header.lookup key := by
  have hsame : Request.SameBut xHeaders (forged ["1.2.3.4"]) (forged []) := by
    refine ⟨rfl, rfl, rfl, rfl, rfl, fun key hkey => ?_⟩
    have hne : key ≠ "X-Real-Ip" := by
      rintro rfl
      exact absurd hkey (by decide)
    show ((_ : HeaderMap).insert "X-Real-Ip" _).lookup key = ((_ : HeaderMap).insert "X-Real-Ip" _).lookup key
    rw [Finmap.lookup_insert_of_ne _ hne, Finmap.lookup_insert_of_ne _ hne]
  exact ⟨rfl, untrusted_headers_same plain rfl _ _ rfl hsame⟩

end Ingress.ForwardedHeaders
