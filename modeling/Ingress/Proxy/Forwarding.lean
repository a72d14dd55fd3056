import Ingress.Framework.Multimap
import Ingress.Http.Path
import Ingress.Http.RequestHeader
import Ingress.Proxy.Response

/-! # The Request to the Backend

    A request is sent to a backend by one of two proxies: the fast proxy
    (`pkg/proxy/fast/proxy.go`), which fills in a request of `fasthttp`, and the reverse proxy of
    `net/http/httputil` with the rewriting of `pkg/proxy/httputil/proxy.go`.

    The header of the fast proxy is an ordered multimap, that of the other a map of lists.  Both
    are compared as what is sent: the fields in some order.

    * `Fast.serveHTTP`, `Std.serveHTTP`: the two proxies, up to the request they send.
    * `Sent.Same`: equal requests, the names of fields up to case.
    * `Agree`: when they send the same.
    * `same_request_iff`: it says exactly that. -/

open List Percent Multimap Prod Text

namespace Ingress.Forwarding

open Http RequestPath
open FastProxy (hopHeaders)

/-! ## Requests -/

/-- What the proxies read and write of a URL. -/
structure URL extends RequestPath.URL where
  scheme : Bytes
  host : String
  opaquePart : Bytes
  forceQuery : Bool
  rawQuery : Bytes

/-- The request of a client.  `notAppendXFF` is what `ShouldNotAppendXFF` reads from its
    context. -/
structure Request where
  method : String
  url : URL
  requestURI : Bytes
  host : String
  remoteAddr : String
  header : HeaderMap
  notAppendXFF : Bool

/-- What is not part of this repository: `url.ParseRequestURI`, without its error, and
    `url.ParseQuery` followed by `Encode`.  `drop` says whether `Set` of `fasthttp` removes the
    further fields with the key. -/
structure Library where
  parseRequestURI : Bytes → Option URL
  reencode : Bytes → Bytes
  drop : Bool

/-- `ReverseProxy`. -/
structure Proxy where
  targetURL : URL
  passHostHeader : Bool
  preservePath : Bool
  debug : Bool
  proxyAuth : String

/-- The request that is sent. -/
structure Sent where
  method : String
  requestURI : Bytes
  host : String
  fields : List (String × String)

/-- `order` goes through the keys of a header. -/
def Enumerates (order : List String) (h : HeaderMap) : Prop :=
  order.Nodup ∧ order.toFinset = h.keys

instance (order : List String) (h : HeaderMap) : Decidable (Enumerates order h) :=
  inferInstanceAs (Decidable (_ ∧ _))

/-! ## What both proxies do -/

def URL.requestURI (u : URL) : Bytes :=
  let result :=
    if u.opaquePart = [] then
      if u.escapedPath = [] then [slash] else u.escapedPath
    else if [slash, slash].isPrefixOf u.opaquePart then u.scheme ++ chr ':' :: u.opaquePart
    else u.opaquePart
  if u.forceQuery || u.rawQuery ≠ [] then result ++ chr '?' :: u.rawQuery else result

def singleJoiningSlash (a b : Bytes) : Bytes :=
  match [slash].isSuffixOf a, [slash].isPrefixOf b with
  | true, true => a ++ b.drop 1
  | false, false => a ++ slash :: b
  | _, _ => a ++ b

def joinURLPath (a b : RequestPath.URL) : RequestPath.URL :=
  if a.rawPath = [] ∧ b.rawPath = [] then ⟨singleJoiningSlash a.path b.path, []⟩
  else
    let apath := a.escapedPath
    let bpath := b.escapedPath
    match [slash].isSuffixOf apath, [slash].isPrefixOf bpath with
    | true, true => ⟨a.path ++ b.path.drop 1, apath ++ bpath.drop 1⟩
    | false, false => ⟨a.path ++ slash :: b.path, apath ++ slash :: bpath⟩
    | _, _ => ⟨a.path ++ b.path, apath ++ bpath⟩

/-- `strings.ReplaceAll(query, ";", "&")`. -/
def replaceSemicolons (query : Bytes) : Bytes :=
  query.map fun c => if c = chr ';' then chr '&' else c

/-- The URL of the request to the backend, from that of the request `u₀` and its URI. -/
def rewriteURL (lib : Library) (p : Proxy) (requestURI : Bytes) (u₀ : URL) : URL :=
  let u := if requestURI ≠ [] then (lib.parseRequestURI requestURI).getD u₀ else u₀
  let path := if p.preservePath then joinURLPath p.targetURL.toURL u.toURL else u.toURL
  { u₀ with
    toURL := path, scheme := p.targetURL.scheme, host := p.targetURL.host
    rawQuery := replaceSemicolons u.rawQuery }

def upgradeType (h : HeaderMap) : String :=
  if containsToken (h.values "Connection") "upgrade" then h.get "Upgrade" else ""

/-- `isGraphic`, and `ascii.IsPrint`. -/
def isGraphic (s : String) : Bool :=
  s.toList.all fun c => ' ' ≤ c && c ≤ '~'

/-- The client accepts trailers. -/
def acceptsTrailers (h : HeaderMap) : Bool :=
  containsToken (h.values "Te") "trailers"

/-- The value of `X-Forwarded-For` that is set, when `prior` is what the header has. -/
def forwardedFor (req : Request) (prior : Option (List String)) : Option String :=
  if req.notAppendXFF then none
  else
    match splitHostPort req.remoteAddr with
    | none => none
    | some (clientIP, _) =>
      match prior with
      -- a key without values: the field is not to be filled in
      | some [] => none
      | some prior => some (", ".intercalate prior ++ ", " ++ clientIP)
      | none => some clientIP

/-- The names of `cleanWebSocketHeaders`, as `net/http` and as the RFC writes them. -/
def webSocketHeaders : List (String × String) :=
  [("Sec-Websocket-Key", "Sec-WebSocket-Key"),
    ("Sec-Websocket-Extensions", "Sec-WebSocket-Extensions"),
    ("Sec-Websocket-Accept", "Sec-WebSocket-Accept"),
    ("Sec-Websocket-Protocol", "Sec-WebSocket-Protocol"),
    ("Sec-Websocket-Version", "Sec-WebSocket-Version")]

/-- The header that tells that the fast proxy was used. -/
def debugHeader : String :=
  "X-Ingress-Fast-Proxy"

/-! ## The fast proxy -/

namespace Fast

/-- The names in a field `Connection`, without spaces around them and otherwise as they are. -/
def connectionOptions (f : String) : List String :=
  (((f.toList.splitOn ',').map (trim isSpace)).filter (· ≠ [])).map String.ofList

def removeConnectionHeaders (h : List (String × String)) : List (String × String) :=
  (connectionOptions ((peek h "Connection").getD "")).foldl del h

variable (lib : Library)

/-- One name of `cleanWebSocketHeaders`. -/
def cleanWebSocketHeader (h : List (String × String)) (name : String × String) :
    List (String × String) :=
  let v := (peek h name.1).getD ""
  if v ≠ "" then del (set lib.drop h name.2 v) name.1 else h

def cleanWebSocketHeaders (h : List (String × String)) : List (String × String) :=
  webSocketHeaders.foldl (cleanWebSocketHeader lib) h

/-- The fields of the request that are passed on, with those for the next hop. -/
def copyHeader (p : Proxy) (order : List String) (req : Request) : List (String × String) :=
  let h := removeConnectionHeaders (listing order req.header.values)
  let h := hopHeaders.foldl del h
  let h := if p.proxyAuth ≠ "" then set lib.drop h "Proxy-Authorization" p.proxyAuth else h
  let h := if acceptsTrailers req.header then set lib.drop h "Te" "trailers" else h
  if p.debug then set lib.drop h debugHeader "enabled" else h

/-- The fields of an upgrade. -/
def upgradeHeader (h : List (String × String)) (reqUpType : String) : List (String × String) :=
  if reqUpType ≠ "" then
    let h := set lib.drop (set lib.drop h "Connection" "Upgrade") "Upgrade" reqUpType
    if equalFold reqUpType.toList "websocket" then cleanWebSocketHeaders lib h else h
  else h

/-- The field `X-Forwarded-For`. -/
def appendXFF (h : List (String × String)) (req : Request) : List (String × String) :=
  match forwardedFor req (req.header.lookup "X-Forwarded-For") with
  | some clientIP => set lib.drop h "X-Forwarded-For" clientIP
  | none => h

/-- `ServeHTTP`, up to the request that is sent; there is none when the client wants to switch to
    an invalid protocol. -/
def serveHTTP (p : Proxy) (order : List String) (req : Request) : Option Sent :=
  let h := copyHeader lib p order req
  let reqUpType := upgradeType req.header
  if !isGraphic reqUpType then none
  else
    let h := upgradeHeader lib h reqUpType
    let u₂ := rewriteURL lib p req.requestURI req.url
    some
      { method := req.method
        requestURI := u₂.requestURI
        host := if p.passHostHeader then req.host else u₂.host
        fields := appendXFF lib h req }

end Fast

/-! ## The reverse proxy of the standard library -/

namespace Std

def removeHopByHopHeaders (h : HeaderMap) : HeaderMap :=
  hopHeaders.foldl (fun h f => h.erase f)
    ((options (h.values "Connection")).foldl (fun h f => h.erase f) h)

/-- The headers that are removed before `Rewrite`, and copied by it. -/
def forwardedHeaders : List String :=
  ["X-Forwarded-For", "Forwarded", "X-Forwarded-Host", "X-Forwarded-Proto"]

/-- The header that `Rewrite` gets. -/
def outHeader (h : HeaderMap) : HeaderMap :=
  let reqUpType := upgradeType h
  let out := removeHopByHopHeaders h
  let out := if acceptsTrailers h then out.set "Te" "trailers" else out
  let out :=
    if reqUpType ≠ "" then (out.set "Connection" "Upgrade").set "Upgrade" reqUpType else out
  forwardedHeaders.foldl (fun h f => h.erase f) out

/-- The query has no semicolon, and all of its percent signs begin an encoded byte. -/
def cleanQuery : Bytes → Bool
  | [] => true
  | c :: hi :: lo :: rest =>
    if c = percent then ishex hi && ishex lo && cleanQuery rest
    else c ≠ chr ';' && cleanQuery (hi :: lo :: rest)
  | c :: rest => c ≠ chr ';' && c ≠ percent && cleanQuery rest

def cleanQueryParams (lib : Library) (s : Bytes) : Bytes :=
  if cleanQuery s then s else lib.reencode s

/-- One header of `copyForwardedHeader`. -/
def copyOne (src dst : HeaderMap) (key : String) : HeaderMap :=
  match src.lookup key with
  | some prior => dst.insert key prior
  | none => dst

def copyForwardedHeader (dst src : HeaderMap) : HeaderMap :=
  forwardedHeaders.foldl (copyOne src) dst

/-- The field `X-Forwarded-For`. -/
def appendXFF (h : HeaderMap) (req : Request) : HeaderMap :=
  match forwardedFor req (h.lookup "X-Forwarded-For") with
  | some clientIP => h.set "X-Forwarded-For" clientIP
  | none => h

def isWebSocketUpgrade (h : HeaderMap) : Bool :=
  containsToken (h.values "Connection") "upgrade" && equalFold (h.get "Upgrade").toList "websocket"

/-- One name of `cleanWebSocketHeaders`. -/
def cleanWebSocketHeader (h : HeaderMap) (name : String × String) : HeaderMap :=
  Finmap.erase name.1 (Finmap.insert name.2 (h.values name.1) h)

def cleanWebSocketHeaders (h : HeaderMap) : HeaderMap :=
  webSocketHeaders.foldl cleanWebSocketHeader h

/-- The header of the request to the backend. -/
def rewriteHeader (req : Request) : HeaderMap :=
  let h := appendXFF (copyForwardedHeader (outHeader req.header) req.header) req
  if isWebSocketUpgrade h then cleanWebSocketHeaders h else h

/-- `ServeHTTP` of `httputil.ReverseProxy` with `rewriteRequestBuilder`, up to the request that is
    sent, the header of which is written in an order. -/
def serveHTTP (lib : Library) (p : Proxy) (order : List String) (req : Request) : Option Sent :=
  if !isGraphic (upgradeType req.header) then none
  else
    let url :=
      rewriteURL lib p req.requestURI
        { req.url with rawQuery := cleanQueryParams lib req.url.rawQuery }
    some
      { method := req.method
        requestURI := url.requestURI
        host := if p.passHostHeader then req.host else url.host
        fields := listing order (rewriteHeader req).values }

end Std

/-! ## Equal requests -/

/-- A name of a header up to case. -/
def fold (name : String) : String :=
  String.ofList (capitalize true name.toList)

/-- The requests are the same, up to the header for debugging and the credentials for a proxy. -/
structure Sent.Same (s t : Sent) : Prop where
  method : s.method = t.method
  requestURI : s.requestURI = t.requestURI
  host : s.host = t.host
  fields : ∀ name, name ≠ debugHeader → name ≠ "Proxy-Authorization" →
    (under fold s.fields name).Perm (under fold t.fields name)

/-- Both send the same request, or none of them sends one. -/
def SameRequest : Option Sent → Option Sent → Prop
  | none, none => True
  | some s, some t => s.Same t
  | _, _ => False

/-- The client and the backend speak the WebSocket protocol. -/
def websocket (h : HeaderMap) : Bool :=
  equalFold (upgradeType h).toList "websocket"

open Fast

/-- The names that the fast proxy finds in the header `Connection`: those of its first value. -/
def firstOptions (h : HeaderMap) : List String :=
  connectionOptions (h.get "Connection")

/-- The proxies send the same values of a header that has values and is not for the next hop. -/
def KeyAgrees (lib : Library) (req : Request) (key : String) : Prop :=
  if key = "X-Forwarded-For" ∧ (forwardedFor req (req.header.lookup key)).isSome then
    -- the values are joined into the first
    lib.drop = true ∨ key ∈ firstOptions req.header ∨ (req.header.values key).length ≤ 1
  else if key ∈ Std.forwardedHeaders then
    -- copied again after the options have been removed
    key ∉ firstOptions req.header
  else
    (key ∈ firstOptions req.header ↔ key ∈ options (req.header.values "Connection")) ∧
      -- only the first value gets the other name
      (websocket req.header = true → key ∈ webSocketHeaders.map fst →
        key ∈ firstOptions req.header ∨ (req.header.values key).length ≤ 1 ∨
          req.header.get key = "")

instance (lib : Library) (req : Request) (key : String) : Decidable (KeyAgrees lib req key) :=
  inferInstanceAs (Decidable (ite _ _ _))

/-- When the proxies send the same request. -/
structure Agree (lib : Library) (req : Request) : Prop where
  query : (req.requestURI ≠ [] ∧ (lib.parseRequestURI req.requestURI).isSome) ∨
    replaceSemicolons (Std.cleanQueryParams lib req.url.rawQuery) =
      replaceSemicolons req.url.rawQuery
  header : ∀ key ∈ req.header, req.header.values key ≠ [] → key ∉ hopHeaders →
    key ≠ debugHeader → KeyAgrees lib req key

/-- The keys of a header are as `net/http` has normalized them. -/
def Normalized (h : HeaderMap) : Prop :=
  ∀ key ∈ h, fold key = key

/-! ## The values that are sent -/

/-- What both proxies send of the headers for the next hop. -/
def hopValues (h : HeaderMap) (name : String) : List String :=
  if name = "Te" then if acceptsTrailers h then ["trailers"] else []
  else if upgradeType h = "" then []
  else if name = "Connection" then ["Upgrade"]
  else if name = "Upgrade" then [upgradeType h]
  else []

/-- What the fast proxy passes on under the name of a WebSocket header. -/
def firstOnly (values : List String) : List String :=
  if values.headD "" ≠ "" then [values.headD ""] else values

/-- What the fast proxy sends. -/
def fastValues (lib : Library) (req : Request) (name : String) : List String :=
  if name ∈ hopHeaders then hopValues req.header name
  else
    let kept := if name ∈ firstOptions req.header then [] else req.header.values name
    if name = "X-Forwarded-For" then
      match forwardedFor req (req.header.lookup name) with
      | some clientIP => clientIP :: (if lib.drop then [] else kept.tail)
      | none => kept
    else if websocket req.header ∧ name ∈ webSocketHeaders.map fst then firstOnly kept
    else kept

/-- What the reverse proxy sends. -/
def stdValues (req : Request) (name : String) : List String :=
  if name ∈ hopHeaders then hopValues req.header name
  else if name = "X-Forwarded-For" then
    match forwardedFor req (req.header.lookup name) with
    | some clientIP => [clientIP]
    | none => req.header.values name
  else if name ∈ Std.forwardedHeaders then req.header.values name
  else if name ∈ options (req.header.values "Connection") then []
  else req.header.values name

/-- The names of the WebSocket headers are apart from each other. -/
theorem webSocketHeaders_apart : webSocketHeaders.Pairwise Apart := by
  decide

/-- What a name of a WebSocket header is and is not. -/
theorem of_mem_webSocketHeaders : ∀ names ∈ webSocketHeaders,
    fold names.1 = names.1 ∧ fold names.2 = names.1 ∧ names.1 ≠ names.2 ∧
      names.1 ∉ hopHeaders ∧ names.2 ∉ hopHeaders ∧ names.1 ≠ "X-Forwarded-For" ∧
      names.2 ≠ "X-Forwarded-For" ∧ names.1 ∉ Std.forwardedHeaders := by
  decide

variable {h : HeaderMap}

/-- `values` of the fields of a header. -/
theorem values_listing_header {order : List String} (hord : Enumerates order h)
    (key : String) : values (listing order h.values) key = h.values key := by
  apply values_listing h.values hord.1
  intro hkey
  have hnot : key ∉ h := by
    rw [← Finmap.mem_keys, ← hord.2, mem_toFinset]
    exact hkey
  rw [HeaderMap.values, Finmap.lookup_eq_none.mpr hnot]
  rfl

/-- The keys that are sent: normalized ones, and the names of WebSocket headers. -/
def Known (key : String) : Prop :=
  fold key = key ∨ ∃ names ∈ webSocketHeaders, key = names.2

/-- The values under a name that is not that of a WebSocket header are those at this key, the
    values under one that is are those at its two keys. -/
theorem under_of_values {m : List (String × String)} (hm : ∀ f ∈ m, Known f.1) {name : String}
    (hname : fold name = name) {sent : List String}
    (hpair : ∀ names ∈ webSocketHeaders, names.1 = name →
      values m names.1 ++ values m names.2 = sent)
    (hsingle : name ∉ webSocketHeaders.map fst → values m name = sent) :
    (under fold m name).Perm sent := by
  by_cases hmem : name ∈ webSocketHeaders.map fst
  · obtain ⟨names, hnames, rfl⟩ := mem_map.mp hmem
    obtain ⟨hold, hnew, hne, -⟩ := of_mem_webSocketHeaders names hnames
    rw [← hpair names hnames rfl]
    apply under_perm hne
    intro f hf
    constructor
    · intro hfold
      rcases hm f hf with hf | ⟨names', hnames', hf⟩
      · exact .inl (hf.symm.trans hfold)
      · -- the second names of two headers differ up to case
        have hfirst : names'.1 = names.1 := by
          rw [← (of_mem_webSocketHeaders names' hnames').2.1, ← hf, hfold]
        have hinj : ∀ a ∈ webSocketHeaders, ∀ b ∈ webSocketHeaders, a.1 = b.1 → a = b := by decide
        exact .inr (by rw [hf, hinj names' hnames' names hnames hfirst])
    · rintro (hf | hf)
      · rw [hf, hold]
      · rw [hf, hnew]
  · rw [← hsingle hmem, under_eq_values]
    intro f hf
    constructor
    · intro hfold
      rcases hm f hf with hf | ⟨names, hnames, hf⟩
      · exact hf.symm.trans hfold
      · have hfirst : names.1 = name := by
          rw [← (of_mem_webSocketHeaders names hnames).2.1, ← hf, hfold]
        exact absurd (mem_map.mpr ⟨names, hnames, hfirst⟩) hmem
    · intro hf
      rw [hf, hname]

theorem ne_webSocketHeaders {name : String} (hname : fold name = name)
    (hmem : name ∉ webSocketHeaders.map fst) :
    ∀ names ∈ webSocketHeaders, name ≠ names.1 ∧ name ≠ names.2 := by
  intro names hnames
  obtain ⟨-, hnew, hne, -⟩ := of_mem_webSocketHeaders names hnames
  constructor
  · rintro rfl
    exact hmem (mem_map_of_mem hnames)
  · rintro rfl
    exact hne (hnew.symm.trans hname)

/-- There is nothing under a name that is not normalized. -/
theorem under_eq_nil {m : List (String × String)} (hm : ∀ f ∈ m, Known f.1) {name : String}
    (hname : fold name ≠ name) : under fold m name = [] := by
  rw [under, filter_eq_nil_iff.mpr, map_nil]
  intro f hf
  rw [decide_eq_true_iff]
  rintro rfl
  apply hname
  rcases hm f hf with hf | ⟨names, hnames, hf⟩
  · rw [hf, hf]
  · obtain ⟨hold, hnew, -⟩ := of_mem_webSocketHeaders names hnames
    rw [hf, hnew, hold]

variable {names : String × String}

/-- A header with normalized keys has nothing at the other name of a WebSocket header. -/
theorem values_second (hnorm : Normalized h)
    (hnames : names ∈ webSocketHeaders) : h.values names.2 = [] := by
  obtain ⟨-, hnew, hne, -⟩ := of_mem_webSocketHeaders names hnames
  have hnot : names.2 ∉ h := fun hmem => hne (hnew.symm.trans (hnorm names.2 hmem))
  rw [HeaderMap.values, Finmap.lookup_eq_none.mpr hnot]
  rfl

/-! ## The fields of the fast proxy -/

namespace Fast

variable {lib : Library} {p : Proxy} {order : List String} {req : Request}

theorem values_removeConnectionHeaders (hord : Enumerates order req.header) (name : String) :
    values (removeConnectionHeaders (listing order req.header.values)) name =
      if name ∈ firstOptions req.header then [] else req.header.values name := by
  have hpeek : (peek (listing order req.header.values) "Connection").getD "" =
      req.header.get "Connection" := by
    rw [peek, values_listing_header hord, HeaderMap.get]
    cases req.header.values "Connection" <;> rfl
  rw [removeConnectionHeaders, hpeek, values_foldl_del, values_listing_header hord]
  rfl

theorem values_copyHeader (lib : Library) (p : Proxy) (hord : Enumerates order req.header) {name : String}
    (hdebug : name ≠ debugHeader) (hauth : name ≠ "Proxy-Authorization") :
    values (copyHeader lib p order req) name =
      if name ∈ hopHeaders then
        if name = "Te" then if acceptsTrailers req.header then ["trailers"] else [] else []
      else if name ∈ firstOptions req.header then [] else req.header.values name := by
  have hte : "Te" ∈ hopHeaders := by decide
  -- the values that are left before any is set
  have hleft := values_foldl_del hopHeaders
    (removeConnectionHeaders (listing order req.header.values)) name
  rw [values_removeConnectionHeaders hord] at hleft
  have hproxy : ∀ h,
      values (if p.proxyAuth ≠ "" then set lib.drop h "Proxy-Authorization" p.proxyAuth else h) name =
        values h name := by
    intro h
    split
    · rw [values_set, if_neg hauth]
    · rfl
  have hlast : ∀ h,
      values (if p.debug then set lib.drop h debugHeader "enabled" else h) name = values h name := by
    intro h
    split
    · rw [values_set, if_neg hdebug]
    · rfl
  rw [copyHeader, hlast]
  by_cases htrail : acceptsTrailers req.header
  · rw [if_pos htrail, values_set]
    by_cases hname : name = "Te"
    · subst hname
      rw [if_pos hte] at hleft
      rw [if_pos rfl, hproxy, hleft, if_pos hte, if_pos rfl, if_pos htrail]
      simp
    · rw [if_neg hname, hproxy, hleft, if_neg hname]
  · rw [if_neg htrail, hproxy, hleft, if_neg htrail, ite_self]

variable {h : List (String × String)}

theorem values_cleanWebSocketHeader (hne : names.1 ≠ names.2) (hnew : values h names.2 = []) :
    values (cleanWebSocketHeader lib h names) names.1 ++
      values (cleanWebSocketHeader lib h names) names.2 = firstOnly (values h names.1) := by
  have hpeek : (peek h names.1).getD "" = (values h names.1).headD "" := by
    rw [peek]
    cases values h names.1 <;> rfl
  rw [cleanWebSocketHeader, hpeek, firstOnly]
  by_cases hv : (values h names.1).headD "" ≠ ""
  · rw [if_pos hv, if_pos hv, values_del, values_del, if_pos rfl, if_neg hne.symm, values_set,
      if_pos rfl, hnew]
    simp
  · rw [if_neg hv, if_neg hv, hnew, append_nil]

theorem values_cleanWebSocketHeader_ne (h : List (String × String)) (names : String × String)
    (key : String) (hold : key ≠ names.1) (hnew : key ≠ names.2) :
    values (cleanWebSocketHeader lib h names) key = values h key := by
  rw [cleanWebSocketHeader]
  split
  · rw [values_del, if_neg hold, values_set, if_neg hnew]
  · rfl

/-- The fields of an upgrade, before the names are changed. -/
def upgraded (lib : Library) (h : List (String × String)) (reqUpType : String) :
    List (String × String) :=
  if reqUpType ≠ "" then
    set lib.drop (set lib.drop h "Connection" "Upgrade") "Upgrade" reqUpType
  else h

theorem upgradeHeader_eq (h : List (String × String)) (r : HeaderMap) :
    upgradeHeader lib h (upgradeType r) =
      if websocket r then cleanWebSocketHeaders lib (upgraded lib h (upgradeType r))
      else upgraded lib h (upgradeType r) := by
  rw [upgradeHeader, upgraded, websocket]
  by_cases hempty : upgradeType r = ""
  · rw [hempty]
    rfl
  · rw [if_pos hempty, if_pos hempty]

/-- What is passed on of a header, when the names are not changed. -/
def kept (h : HeaderMap) (name : String) : List String :=
  if name ∈ hopHeaders then hopValues h name
  else if name ∈ firstOptions h then [] else h.values name

theorem values_upgraded (lib : Library) (p : Proxy) (hord : Enumerates order req.header) {name : String}
    (hdebug : name ≠ debugHeader) (hauth : name ≠ "Proxy-Authorization") :
    values (upgraded lib (copyHeader lib p order req) (upgradeType req.header)) name =
      kept req.header name := by
  have hcopy := values_copyHeader lib p hord hdebug hauth
  by_cases hempty : upgradeType req.header = ""
  · rw [upgraded, if_neg (not_not.mpr hempty), hcopy, kept, hopValues, if_pos hempty]
  · -- the header `Connection` and `Upgrade` are set when no such field is left
    have hgone : ∀ key ∈ ["Connection", "Upgrade"],
        values (copyHeader lib p order req) key = [] := by
      intro key hkey
      have hnames : ∀ key ∈ ["Connection", "Upgrade"], key ≠ debugHeader ∧
          key ≠ "Proxy-Authorization" ∧ key ∈ hopHeaders ∧ key ≠ "Te" := by decide
      obtain ⟨h₁, h₂, h₃, h₄⟩ := hnames key hkey
      rw [values_copyHeader lib p hord h₁ h₂, if_pos h₃, if_neg h₄]
    rw [upgraded, if_pos hempty, values_set, values_set, values_set,
      if_neg (show "Upgrade" ≠ "Connection" by decide), hgone "Connection" (by simp),
      hgone "Upgrade" (by simp), hcopy, kept, hopValues, if_neg hempty]
    by_cases hconn : name = "Connection"
    · subst hconn
      simp [hopHeaders]
    · by_cases hupgrade : name = "Upgrade"
      · subst hupgrade
        simp [hopHeaders]
      · simp [hconn, hupgrade]

/-- Of a WebSocket header one value is passed on, unless it is empty. -/
theorem values_upgradeHeader (hord : Enumerates order req.header) (hnorm : Normalized req.header)
    (hnames : names ∈ webSocketHeaders) :
    values (upgradeHeader lib (copyHeader lib p order req) (upgradeType req.header)) names.1 ++
      values (upgradeHeader lib (copyHeader lib p order req) (upgradeType req.header)) names.2 =
      if websocket req.header then firstOnly (kept req.header names.1)
      else kept req.header names.1 := by
  obtain ⟨-, -, hne, hhop, hhop', -⟩ := of_mem_webSocketHeaders names hnames
  have hother : ∀ names ∈ webSocketHeaders, names.1 ≠ debugHeader ∧ names.2 ≠ debugHeader ∧
      names.1 ≠ "Proxy-Authorization" ∧ names.2 ≠ "Proxy-Authorization" := by decide
  obtain ⟨h₁, h₂, h₃, h₄⟩ := hother names hnames
  have hold := values_upgraded lib p hord h₁ h₃
  have hnew := values_upgraded lib p hord h₂ h₄
  have hnone : kept req.header names.2 = [] := by
    rw [kept, if_neg hhop', values_second hnorm hnames, ite_self]
  rw [hnone] at hnew
  rw [upgradeHeader_eq]
  by_cases hws : websocket req.header
  · rw [if_pos hws, if_pos hws, ← hold]
    exact foldl_pair values_cleanWebSocketHeader_ne
      (fun h names hnames => values_cleanWebSocketHeader (of_mem_webSocketHeaders names hnames).2.2.1)
      webSocketHeaders_apart hnames _ hnew
  · rw [if_neg hws, if_neg hws, hold, hnew, append_nil]

theorem values_upgradeHeader_ne (hord : Enumerates order req.header) {name : String}
    (hdebug : name ≠ debugHeader) (hauth : name ≠ "Proxy-Authorization")
    (hname : ∀ names ∈ webSocketHeaders, name ≠ names.1 ∧ name ≠ names.2) :
    values (upgradeHeader lib (copyHeader lib p order req) (upgradeType req.header)) name =
      kept req.header name := by
  have hbefore := values_upgraded lib p hord hdebug hauth
  rw [upgradeHeader_eq]
  split
  · rw [cleanWebSocketHeaders, foldl_frame values_cleanWebSocketHeader_ne _ _ hname, hbefore]
  · exact hbefore

theorem values_appendXFF (h : List (String × String)) (name : String) :
    values (appendXFF lib h req) name =
      if name = "X-Forwarded-For" then match forwardedFor req (req.header.lookup name) with
        | some clientIP => clientIP :: (if lib.drop then [] else (values h name).tail)
        | none => values h name
      else values h name := by
  rw [appendXFF]
  by_cases hname : name = "X-Forwarded-For"
  · subst hname
    cases forwardedFor req (req.header.lookup "X-Forwarded-For") with
    | some clientIP => rw [values_set, if_pos rfl]
    | none => rfl
  · rw [if_neg hname]
    cases forwardedFor req (req.header.lookup "X-Forwarded-For") with
    | some clientIP => rw [values_set, if_neg hname]
    | none => rfl

theorem known_set (hh : ∀ f ∈ h, Known f.1) (key : String)
    (hkey : Known key) (drop : Bool) (value : String) : ∀ f ∈ set drop h key value, Known f.1 := by
  intro f hf
  rcases key_of_mem_set hf with heq | hmem
  · rw [heq]
    exact hkey
  · exact hh f hmem

theorem known_ite {h h' : List (String × String)} {c : Prop} [Decidable c]
    (hh : ∀ f ∈ h, Known f.1) (hh' : ∀ f ∈ h', Known f.1) :
    ∀ f ∈ if c then h else h', Known f.1 := by
  split
  · exact hh
  · exact hh'

theorem known_cleanWebSocketHeaders (hh : ∀ f ∈ h, Known f.1) :
    ∀ f ∈ cleanWebSocketHeaders lib h, Known f.1 := by
  apply foldlRecOn (motive := fun h : List (String × String) => ∀ f ∈ h, Known f.1)
  · exact hh
  · intro h hh names hnames
    rw [cleanWebSocketHeader]
    split
    · intro f hf
      exact known_set hh _ (.inr ⟨names, hnames, rfl⟩) _ _ f (mem_of_mem_filter hf)
    · exact hh

theorem known_copyHeader (lib : Library) (p : Proxy) (hord : Enumerates order req.header) (hnorm : Normalized req.header) :
    ∀ f ∈ copyHeader lib p order req, Known f.1 := by
  have hleft : ∀ f ∈ hopHeaders.foldl del
      (removeConnectionHeaders (listing order req.header.values)), Known f.1 := by
    intro f hf
    have hmem := key_of_mem_listing (mem_of_mem_foldl_del (mem_of_mem_foldl_del hf))
    rw [← mem_toFinset, hord.2, Finmap.mem_keys] at hmem
    exact .inl (hnorm f.1 hmem)
  have hproxy := known_ite (c := p.proxyAuth ≠ "")
    (known_set hleft "Proxy-Authorization" (.inl (by decide)) lib.drop p.proxyAuth) hleft
  have htrail := known_ite (c := acceptsTrailers req.header)
    (known_set hproxy "Te" (.inl (by decide)) lib.drop "trailers") hproxy
  exact known_ite (known_set htrail debugHeader (.inl (by decide)) lib.drop "enabled")
    htrail

/-- The fields have keys that are known. -/
theorem known_fields (hord : Enumerates order req.header) (hnorm : Normalized req.header) :
    ∀ f ∈ appendXFF lib (upgradeHeader lib (copyHeader lib p order req) (upgradeType req.header))
      req, Known f.1 := by
  have hcopy := known_copyHeader lib p hord hnorm
  have hconn := known_set hcopy "Connection" (.inl (by decide)) lib.drop "Upgrade"
  have hup : ∀ f ∈ upgraded lib (copyHeader lib p order req) (upgradeType req.header), Known f.1 :=
    known_ite (known_set hconn "Upgrade" (.inl (by decide)) _ _) hcopy
  have hupgrade : ∀ f ∈ upgradeHeader lib (copyHeader lib p order req) (upgradeType req.header),
      Known f.1 := by
    rw [upgradeHeader_eq]
    exact known_ite (known_cleanWebSocketHeaders hup) hup
  rw [appendXFF]
  cases forwardedFor req (req.header.lookup "X-Forwarded-For") with
  | some ip => exact known_set hupgrade _ (.inl (by decide)) _ _
  | none => exact hupgrade

/-- **The fields of the fast proxy**. -/
theorem under_fields (hord : Enumerates order req.header) (hnorm : Normalized req.header)
    {name : String} (hname : fold name = name) (hdebug : name ≠ debugHeader)
    (hauth : name ≠ "Proxy-Authorization") :
    (under fold (appendXFF lib (upgradeHeader lib (copyHeader lib p order req)
      (upgradeType req.header)) req) name).Perm (fastValues lib req name) := by
  apply under_of_values (known_fields hord hnorm) hname
  · rintro names hnames rfl
    obtain ⟨-, -, -, hhop, -, hxff, hxff', -⟩ := of_mem_webSocketHeaders names hnames
    have hmem : names.1 ∈ webSocketHeaders.map fst := mem_map_of_mem hnames
    rw [values_appendXFF, values_appendXFF, if_neg hxff, if_neg hxff',
      values_upgradeHeader hord hnorm hnames, kept, fastValues, if_neg hhop, if_neg hhop,
      if_neg hxff]
    simp only [hmem, and_true]
  · intro hmem
    have hother := ne_webSocketHeaders hname hmem
    rw [values_appendXFF, values_upgradeHeader_ne hord hdebug hauth hother, kept, fastValues]
    by_cases hhop : name ∈ hopHeaders
    · have hxff : name ≠ "X-Forwarded-For" := by
        rintro rfl
        exact absurd hhop (by decide)
      rw [if_pos hhop, if_pos hhop, if_neg hxff]
    · simp only [hhop, hmem, and_false, if_false]

end Fast

/-! ## The fields of the reverse proxy -/

namespace Std

variable {lib : Library} {p : Proxy} {order : List String} {req : Request}

theorem values_set (h : HeaderMap) (key value name : String) :
    (h.set key value).values name = if name = key then [value] else h.values name := by
  by_cases hname : name = key
  · subst hname
    rw [if_pos rfl, HeaderMap.values, HeaderMap.lookup_set]
    rfl
  · rw [if_neg hname, HeaderMap.values, HeaderMap.lookup_set_ne hname, HeaderMap.values]

theorem values_foldl_erase (keys : List String) (h : HeaderMap) (name : String) :
    (keys.foldl (fun h f => h.erase f) h).values name =
      if name ∈ keys then [] else h.values name := by
  rw [HeaderMap.values, lookup_foldl_erase]
  split
  · rfl
  · rfl

theorem values_trailers (h out : HeaderMap) (name : String) :
    (if acceptsTrailers h then out.set "Te" "trailers" else out).values name =
      if name = "Te" ∧ acceptsTrailers h then ["trailers"] else out.values name := by
  by_cases htrail : acceptsTrailers h
  · simp only [htrail, if_true, and_true]
    exact values_set out "Te" "trailers" name
  · simp only [htrail, and_false, if_false, Bool.false_eq_true]

theorem values_upgrade (out : HeaderMap) (up name : String) :
    (if up ≠ "" then (out.set "Connection" "Upgrade").set "Upgrade" up
      else out).values name =
      if up = "" then out.values name else if name = "Upgrade" then [up]
      else if name = "Connection" then ["Upgrade"] else out.values name := by
  by_cases hempty : up = ""
  · rw [if_neg (not_not.mpr hempty), if_pos hempty]
  · rw [if_pos hempty, if_neg hempty, values_set, values_set]

theorem values_outHeader (h : HeaderMap) {name : String} (hfwd : name ∉ forwardedHeaders) :
    (outHeader h).values name =
      if name ∈ hopHeaders then hopValues h name
      else if name ∈ options (h.values "Connection") then [] else h.values name := by
  have hleft : (removeHopByHopHeaders h).values name =
      if name ∈ hopHeaders then []
      else if name ∈ options (h.values "Connection") then [] else h.values name := by
    rw [removeHopByHopHeaders, values_foldl_erase, values_foldl_erase]
  rw [outHeader, values_foldl_erase, if_neg hfwd, values_upgrade, values_trailers, hleft, hopValues]
  by_cases hte : name = "Te"
  · subst hte
    by_cases htrail : acceptsTrailers h <;> simp [htrail, hopHeaders]
  · by_cases hconn : name = "Connection"
    · subst hconn
      simp [hopHeaders]
    · by_cases hupgrade : name = "Upgrade"
      · subst hupgrade
        simp [hopHeaders]
      · simp [hte, hconn, hupgrade]

theorem lookup_foldl_copyOne (keys : List String) (src dst : HeaderMap) (key : String) :
    (keys.foldl (copyOne src) dst).lookup key =
      if key ∈ keys then (src.lookup key).or (dst.lookup key) else dst.lookup key := by
  induction keys generalizing dst with
  | nil => rfl
  | cons k keys ih =>
    have hone : (copyOne src dst k).lookup key =
        if key = k then (src.lookup key).or (dst.lookup key) else dst.lookup key := by
      rw [copyOne]
      by_cases hk : key = k
      · subst hk
        cases hsrc : src.lookup key with
        | none => simp
        | some prior => simp
      · cases hsrc : src.lookup k with
        | none => simp [hk]
        | some prior => simp [hk, Finmap.lookup_insert_of_ne]
    rw [foldl_cons, ih, hone]
    by_cases hmem : key ∈ keys
    · by_cases hk : key = k
      · cases hsrc : src.lookup key <;> simp [hmem]
      · simp [hmem, hk]
    · simp [hmem]

/-- The headers that `Rewrite` copies are those of the client. -/
theorem lookup_copyForwardedHeader {key : String} (hkey : key ∈ forwardedHeaders) :
    (copyForwardedHeader (outHeader req.header) req.header).lookup key = req.header.lookup key := by
  have hout : (outHeader req.header).lookup key = none := by
    rw [outHeader, lookup_foldl_erase, if_pos hkey]
  rw [copyForwardedHeader, lookup_foldl_copyOne, if_pos hkey, hout, Option.or_none]

/-- The values before the names are changed. -/
theorem values_appendXFF (name : String) :
    (appendXFF (copyForwardedHeader (outHeader req.header) req.header) req).values name =
      stdValues req name := by
  have hcopied : "X-Forwarded-For" ∈ forwardedHeaders := by decide
  have hapart : ∀ name ∈ hopHeaders, name ∉ forwardedHeaders := by decide
  have hset : ∀ h, (appendXFF h req).values name =
      if name = "X-Forwarded-For" then
        match forwardedFor req (h.lookup name) with
        | some ip => [ip]
        | none => h.values name
      else h.values name := by
    intro h
    rw [appendXFF]
    by_cases hname : name = "X-Forwarded-For"
    · subst hname
      cases forwardedFor req (h.lookup "X-Forwarded-For") with
      | some ip => rw [values_set, if_pos rfl]
      | none => rfl
    · rw [if_neg hname]
      cases forwardedFor req (h.lookup "X-Forwarded-For") with
      | some ip => rw [values_set, if_neg hname]
      | none => rfl
  rw [hset, stdValues]
  by_cases hfwd : name ∈ forwardedHeaders
  · have hhop : name ∉ hopHeaders := fun hhop => hapart name hhop hfwd
    rw [HeaderMap.values, lookup_copyForwardedHeader hfwd, if_neg hhop, if_pos hfwd]
    rfl
  · have hxff : name ≠ "X-Forwarded-For" := by
      rintro rfl
      exact hfwd hcopied
    rw [if_neg hxff, if_neg hxff, if_neg hfwd, ← values_outHeader req.header hfwd,
      HeaderMap.values, copyForwardedHeader, lookup_foldl_copyOne, if_neg hfwd]
    rfl

theorem isWebSocketUpgrade_eq :
    isWebSocketUpgrade (appendXFF (copyForwardedHeader (outHeader req.header) req.header) req) =
      websocket req.header := by
  have hhop : ∀ name ∈ hopHeaders,
      (appendXFF (copyForwardedHeader (outHeader req.header) req.header) req).values name =
        hopValues req.header name := by
    intro name hname
    rw [values_appendXFF, stdValues, if_pos hname]
  rw [isWebSocketUpgrade, HeaderMap.get, hhop "Connection" (by decide), hhop "Upgrade" (by decide),
    hopValues, hopValues, websocket]
  by_cases hempty : upgradeType req.header = ""
  · rw [hempty]
    rfl
  · have htoken : containsToken ["Upgrade"] "upgrade" = true := by decide
    simp [hempty, htoken]

theorem values_cleanWebSocketHeader (h : HeaderMap) (names : String × String)
    (hne : names.1 ≠ names.2) :
    (cleanWebSocketHeader h names).values names.1 ++
      (cleanWebSocketHeader h names).values names.2 = h.values names.1 := by
  have hold : (cleanWebSocketHeader h names).values names.1 = [] := by
    rw [cleanWebSocketHeader, HeaderMap.values, Finmap.lookup_erase]
    rfl
  have hnew : (cleanWebSocketHeader h names).values names.2 = h.values names.1 := by
    rw [cleanWebSocketHeader, HeaderMap.values, Finmap.lookup_erase_ne hne.symm,
      Finmap.lookup_insert]
    rfl
  rw [hold, hnew, nil_append]

theorem values_cleanWebSocketHeader_ne (h : HeaderMap) (names : String × String)
    (key : String) (hold : key ≠ names.1) (hnew : key ≠ names.2) :
    (cleanWebSocketHeader h names).values key = h.values key := by
  rw [cleanWebSocketHeader, HeaderMap.values, Finmap.lookup_erase_ne hold,
    Finmap.lookup_insert_of_ne _ hnew]
  rfl

theorem known_foldl_erase {keys : List String} (hh : ∀ key ∈ h, Known key) :
    ∀ key ∈ keys.foldl (fun h f => h.erase f) h, Known key := by
  apply foldlRecOn (motive := fun h => ∀ key ∈ h, Known key)
  · exact hh
  · intro h hh f _ key hkey
    exact hh key (Finmap.mem_erase.mp hkey).2

theorem known_insert (hh : ∀ key ∈ h, Known key) (key : String)
    (hkey : Known key) (vals : List String) : ∀ key' ∈ h.insert key vals, Known key' := by
  intro key' hmem
  rcases Finmap.mem_insert.mp hmem with rfl | hmem
  · exact hkey
  · exact hh key' hmem

theorem known_outHeader (hnorm : Normalized h) : ∀ key ∈ outHeader h, Known key := by
  have hleft : ∀ key ∈ removeHopByHopHeaders h, Known key :=
    known_foldl_erase (known_foldl_erase fun key hkey => .inl (hnorm key hkey))
  have htrail : ∀ key ∈ (if acceptsTrailers h then (removeHopByHopHeaders h).set "Te" "trailers"
      else removeHopByHopHeaders h), Known key := by
    split
    · exact known_insert hleft "Te" (.inl (by decide)) _
    · exact hleft
  apply known_foldl_erase
  split
  · exact known_insert (known_insert htrail "Connection" (.inl (by decide)) _) "Upgrade"
      (.inl (by decide)) _
  · exact htrail

theorem known_copyForwardedHeader {dst : HeaderMap} (hh : ∀ key ∈ dst, Known key)
    (src : HeaderMap) : ∀ key ∈ copyForwardedHeader dst src, Known key := by
  have hfolded : ∀ key ∈ forwardedHeaders, fold key = key := by decide
  apply foldlRecOn (motive := fun h => ∀ key ∈ h, Known key)
  · exact hh
  · intro h hh f hf
    rw [copyOne]
    cases src.lookup f with
    | none => exact hh
    | some prior => exact known_insert hh f (.inl (hfolded f hf)) prior

/-- The keys of the header are known. -/
theorem known_rewriteHeader (hnorm : Normalized req.header) :
    ∀ key ∈ rewriteHeader req, Known key := by
  have hcopy := known_copyForwardedHeader (known_outHeader hnorm) req.header
  have hbefore : ∀ key ∈ appendXFF (copyForwardedHeader (outHeader req.header) req.header) req,
      Known key := by
    rw [appendXFF]
    split
    · exact known_insert hcopy "X-Forwarded-For" (.inl (by decide)) _
    · exact hcopy
  rw [rewriteHeader]
  split
  · apply foldlRecOn (motive := fun h => ∀ key ∈ h, Known key)
    · exact hbefore
    · intro h hh names hnames key hkey
      exact known_insert hh names.2 (.inr ⟨names, hnames, rfl⟩) _ key (Finmap.mem_erase.mp hkey).2
  · exact hbefore

/-- The fields have keys that are known. -/
theorem known_fields (hord : Enumerates order (rewriteHeader req)) (hnorm : Normalized req.header) :
    ∀ f ∈ listing order (rewriteHeader req).values, Known f.1 := by
  intro f hf
  have hmem := key_of_mem_listing hf
  rw [← mem_toFinset, hord.2, Finmap.mem_keys] at hmem
  exact known_rewriteHeader hnorm f.1 hmem

/-- **The fields of the reverse proxy**. -/
theorem under_fields (hord : Enumerates order (rewriteHeader req))
    (hnorm : Normalized req.header) {name : String} (hname : fold name = name) :
    (under fold (listing order (rewriteHeader req).values) name).Perm (stdValues req name) := by
  have hbefore := fun name => @values_appendXFF req name
  apply under_of_values (known_fields hord hnorm) hname
  · rintro names hnames rfl
    obtain ⟨-, -, hne, -, hhop', -, hxff', -⟩ := of_mem_webSocketHeaders names hnames
    have hnone : stdValues req names.2 = [] := by
      rw [stdValues, if_neg hhop', if_neg hxff', values_second hnorm hnames]
      simp
    rw [values_listing_header hord, values_listing_header hord, rewriteHeader,
      isWebSocketUpgrade_eq]
    split
    · rw [cleanWebSocketHeaders, ← hbefore]
      exact foldl_pair (g := id) values_cleanWebSocketHeader_ne
        (fun h names hnames _ =>
          values_cleanWebSocketHeader h names (of_mem_webSocketHeaders names hnames).2.2.1)
        webSocketHeaders_apart hnames _ ((hbefore names.2).trans hnone)
    · rw [hbefore, hbefore, hnone, append_nil]
  · intro hmem
    have hother := ne_webSocketHeaders hname hmem
    rw [values_listing_header hord, rewriteHeader]
    split
    · rw [cleanWebSocketHeaders, foldl_frame values_cleanWebSocketHeader_ne _ _ hother, hbefore]
    · rw [hbefore]

end Std

/-! ## When the values are the same -/

theorem perm_kept_iff {c : Prop} [Decidable c] (vals : List String) :
    (if c then [] else vals).Perm vals ↔ vals = [] ∨ ¬c := by
  by_cases hc : c
  · simp [hc]
  · simp [hc]

theorem perm_firstOnly_iff (vals : List String) :
    (firstOnly vals).Perm vals ↔ vals.length ≤ 1 ∨ vals.headD "" = "" := by
  rw [firstOnly]
  by_cases hhead : vals.headD "" = ""
  · rw [if_neg (not_not.mpr hhead)]
    exact iff_of_true (List.Perm.refl vals) (.inr hhead)
  · cases vals with
    | nil => exact absurd rfl hhead
    | cons v vals =>
      rw [headD_cons] at hhead
      simp [hhead]

section

variable {lib : Library} {req : Request} {name : String}

/-- The field `X-Forwarded-For`. -/
theorem perm_xff_iff (hname : name = "X-Forwarded-For") :
    (fastValues lib req name).Perm (stdValues req name) ↔
      req.header.values name = [] ∨ KeyAgrees lib req name := by
  subst hname
  have hhop : "X-Forwarded-For" ∉ hopHeaders := by decide
  have hcopied : "X-Forwarded-For" ∈ Std.forwardedHeaders := by decide
  simp only [fastValues, stdValues, KeyAgrees, hhop, hcopied, if_false, if_true, true_and]
  cases hfor : forwardedFor req (req.header.lookup "X-Forwarded-For") with
  | none =>
    exact perm_kept_iff _
  | some ip =>
    -- nothing may be left after the first value
    by_cases hdrop : lib.drop = true
    · simp [hdrop]
    · by_cases hfirst : "X-Forwarded-For" ∈ firstOptions req.header
      · simp [hdrop, hfirst]
      · cases req.header.values "X-Forwarded-For" <;> simp [hdrop, hfirst]

/-- The other fields that are copied. -/
theorem perm_forwarded_iff (hname : name ∈ Std.forwardedHeaders) (hxff : name ≠ "X-Forwarded-For") :
    (fastValues lib req name).Perm (stdValues req name) ↔
      req.header.values name = [] ∨ KeyAgrees lib req name := by
  have hapart : ∀ name ∈ Std.forwardedHeaders,
      name ∉ hopHeaders ∧ name ∉ webSocketHeaders.map fst := by decide
  obtain ⟨hhop, hws⟩ := hapart name hname
  simp only [fastValues, stdValues, KeyAgrees, hhop, hws, hname, hxff, if_false, if_true, false_and,
    and_false]
  exact perm_kept_iff _

/-- All other fields that are not for the next hop. -/
theorem perm_other_iff (hhop : name ∉ hopHeaders) (hname : name ∉ Std.forwardedHeaders) :
    (fastValues lib req name).Perm (stdValues req name) ↔
      req.header.values name = [] ∨ KeyAgrees lib req name := by
  have hxff : name ≠ "X-Forwarded-For" := by
    rintro rfl
    exact hname (by decide)
  simp only [fastValues, stdValues, KeyAgrees, hhop, hname, hxff, if_false, false_and]
  by_cases hnone : req.header.values name = []
  · rw [hnone, ite_self, ite_self]
    have hempty : firstOnly [] = [] := rfl
    rw [hempty, ite_self]
    simp
  · have hfirst := perm_firstOnly_iff (req.header.values name)
    have hsome : firstOnly (req.header.values name) ≠ [] := by
      rw [firstOnly]
      split
      · exact cons_ne_nil _ _
      · exact hnone
    by_cases hfast : name ∈ firstOptions req.header
    · by_cases hstd : name ∈ options (req.header.values "Connection")
      · simp [hfast, hstd, firstOnly]
      · simp [hfast, hstd, firstOnly, hnone]
    · rw [if_neg hfast]
      by_cases hws : websocket req.header = true ∧ name ∈ webSocketHeaders.map fst
      · rw [if_pos hws]
        by_cases hstd : name ∈ options (req.header.values "Connection")
        · simp [hfast, hstd, hnone, hsome]
        · rw [if_neg hstd, hfirst]
          simp [hfast, hstd, hnone, hws.1, hws.2, HeaderMap.get]
      · rw [if_neg hws]
        by_cases hstd : name ∈ options (req.header.values "Connection")
        · simp [hfast, hstd, hnone]
        · rw [if_neg hstd]
          exact iff_of_true (List.Perm.refl _)
            (.inr ⟨iff_of_false hfast hstd, fun h₁ h₂ => absurd ⟨h₁, h₂⟩ hws⟩)

theorem perm_values_iff (hhop : name ∉ hopHeaders) :
    (fastValues lib req name).Perm (stdValues req name) ↔
      req.header.values name = [] ∨ KeyAgrees lib req name := by
  by_cases hname : name ∈ Std.forwardedHeaders
  · by_cases hxff : name = "X-Forwarded-For"
    · exact perm_xff_iff hxff
    · exact perm_forwarded_iff hname hxff
  · exact perm_other_iff hhop hname

end

/-! ## When the queries are the same -/

theorem append_query_inj {result query query' : Bytes} (force : Bool) (c : UInt8)
    (h : (if force || query ≠ [] then result ++ c :: query else result) =
      if force || query' ≠ [] then result ++ c :: query' else result) : query' = query := by
  cases force
  · by_cases hq : query = []
    · by_cases hq' : query' = []
      · rw [hq, hq']
      · simp [hq, hq'] at h
    · by_cases hq' : query' = []
      · simp [hq, hq'] at h
      · simpa [hq, hq', eq_comm] using h
  · simpa [eq_comm] using h

theorem URL.requestURI_inj (u : URL) (query : Bytes) :
    u.requestURI = ({ u with rawQuery := query } : URL).requestURI ↔ query = u.rawQuery := by
  constructor
  · exact append_query_inj u.forceQuery (chr '?')
  · rintro rfl
    rfl

theorem requestURI_rewriteURL_iff (lib : Library) (p : Proxy) (uri : Bytes) (u : URL)
    (query : Bytes) :
    (rewriteURL lib p uri u).requestURI =
        (rewriteURL lib p uri { u with rawQuery := query }).requestURI ↔
      (uri ≠ [] ∧ (lib.parseRequestURI uri).isSome) ∨
        replaceSemicolons query = replaceSemicolons u.rawQuery := by
  by_cases hparsed : uri ≠ [] ∧ (lib.parseRequestURI uri).isSome
  · -- the query is that of the URI
    obtain ⟨parsed, hsome⟩ := Option.isSome_iff_exists.mp hparsed.2
    simp [rewriteURL, hparsed.1, hsome]
  · have hown : ∀ u₀, (if uri ≠ [] then (lib.parseRequestURI uri).getD u₀ else u₀) = u₀ := by
      intro u₀
      split
      · next huri =>
        rw [Option.not_isSome_iff_eq_none.mp fun hsome => hparsed ⟨huri, hsome⟩]
        rfl
      · rfl
    rw [or_iff_right hparsed]
    simp only [rewriteURL, hown]
    exact URL.requestURI_inj _ _

/-! ## The same request -/

section

variable {lib : Library} {p : Proxy} {req : Request} {order order' : List String}

/-- The fields are the same when the values of every header of the client are. -/
theorem same_fields_iff (hnorm : Normalized req.header) (hord : Enumerates order req.header)
    (hord' : Enumerates order' (Std.rewriteHeader req)) :
    (∀ name, name ≠ debugHeader → name ≠ "Proxy-Authorization" →
      (under fold (appendXFF lib (upgradeHeader lib (copyHeader lib p order req)
        (upgradeType req.header)) req) name).Perm
      (under fold (listing order' (Std.rewriteHeader req).values) name)) ↔
    ∀ key ∈ req.header, req.header.values key ≠ [] → key ∉ hopHeaders → key ≠ debugHeader →
      KeyAgrees lib req key := by
  -- up to order both have the values that are said for a normalized name
  have hsent : ∀ {name}, fold name = name → name ≠ debugHeader → name ≠ "Proxy-Authorization" →
      ((under fold (appendXFF lib (upgradeHeader lib (copyHeader lib p order req)
          (upgradeType req.header)) req) name).Perm
        (under fold (listing order' (Std.rewriteHeader req).values) name) ↔
      (fastValues lib req name).Perm (stdValues req name)) := by
    intro name hname hdebug hauth
    have hfast := @Fast.under_fields lib p order req hord hnorm name hname hdebug hauth
    have hstd := Std.under_fields hord' hnorm hname
    exact ⟨fun h => hfast.symm.trans (h.trans hstd), fun h => hfast.trans (h.trans hstd.symm)⟩
  constructor
  · intro h key hkey hsome hhop hdebug
    have hauth : key ≠ "Proxy-Authorization" := by
      rintro rfl
      exact hhop (by decide)
    have hperm := (hsent (hnorm key hkey) hdebug hauth).mp (h key hdebug hauth)
    exact ((perm_values_iff hhop).mp hperm).resolve_left hsome
  · intro h name hdebug hauth
    by_cases hname : fold name = name
    · rw [hsent hname hdebug hauth]
      by_cases hhop : name ∈ hopHeaders
      · rw [fastValues, stdValues, if_pos hhop, if_pos hhop]
      · rw [perm_values_iff hhop]
        by_cases hnone : req.header.values name = []
        · exact .inl hnone
        · have hmem : name ∈ req.header := by
            by_contra hnot
            rw [HeaderMap.values, Finmap.lookup_eq_none.mpr hnot] at hnone
            exact hnone rfl
          exact .inr (h name hmem hnone hhop hdebug)
    · rw [under_eq_nil (known_fields hord hnorm) hname,
        under_eq_nil (Std.known_fields hord' hnorm) hname]

end

/-- **The same request**.  Unless the client wants to switch to an invalid protocol, and then no
    request is sent, the two proxies send the same request exactly when they agree on the query
    and on the values of every header of the client. -/
theorem same_request_iff (lib : Library) (p : Proxy) (req : Request)
    (hnorm : Normalized req.header) (order order' : List String)
    (horder : Enumerates order req.header) (horder' : Enumerates order' (Std.rewriteHeader req)) :
    SameRequest (serveHTTP lib p order req) (Std.serveHTTP lib p order' req) ↔
      isGraphic (upgradeType req.header) = false ∨ Agree lib req := by
  rw [serveHTTP, Std.serveHTTP]
  by_cases hgraphic : isGraphic (upgradeType req.header) = true
  · have hval : ¬(!isGraphic (upgradeType req.header)) = true := by simp [hgraphic]
    have hother : ¬isGraphic (upgradeType req.header) = false := by simp [hgraphic]
    rw [if_neg hval, if_neg hval, or_iff_right hother]
    constructor
    · intro h
      exact ⟨(requestURI_rewriteURL_iff lib p req.requestURI req.url _).mp h.requestURI,
        (same_fields_iff hnorm horder horder').mp h.fields⟩
    · intro h
      exact
        { method := rfl
          requestURI := (requestURI_rewriteURL_iff lib p req.requestURI req.url _).mpr h.query
          host := rfl
          fields := (same_fields_iff hnorm horder horder').mpr h.header }
  · have hinvalid : isGraphic (upgradeType req.header) = false := by simpa using hgraphic
    simp [hinvalid, SameRequest]

/-! ## Two requests -/

/-- A library that parses no URI and encodes queries as they are. -/
def plainLibrary : Library :=
  ⟨fun _ => none, id, true⟩

def backendURL : URL :=
  ⟨⟨ascii "/", []⟩, ascii "http", "10.0.0.1:8080", [], false, []⟩

def backendProxy : Proxy :=
  ⟨backendURL, true, false, false, ""⟩

/-- A request with a header. -/
def requestWith (header : HeaderMap) : Request where
  method := "GET"
  url := ⟨⟨ascii "/chat", []⟩, [], "", [], false, ascii "a=1"⟩
  requestURI := []
  host := "example.com"
  remoteAddr := "192.0.2.7:40000"
  header := header
  notAppendXFF := false

/-- The header of a client that opens a WebSocket connection with some protocols. -/
def upgradeWith (protocols : List String) : HeaderMap :=
  ((((∅ : HeaderMap).set "Connection" "keep-alive, Upgrade").set "Upgrade" "websocket").set
    "X-Forwarded-For" "198.51.100.1").insert "Sec-Websocket-Protocol" protocols

/-- The keys of such a header, for the fast proxy. -/
def upgradeOrder : List String :=
  ["Upgrade", "Sec-Websocket-Protocol", "X-Forwarded-For", "Connection"]

/-- The keys of the header that the reverse proxy sends. -/
def upgradeOrder' : List String :=
  ["Connection", "Sec-WebSocket-Accept", "Sec-WebSocket-Extensions", "Sec-WebSocket-Key",
    "Sec-WebSocket-Protocol", "Sec-WebSocket-Version", "Upgrade", "X-Forwarded-For"]

theorem normalized_of_enumerates {order : List String}
    (hord : Enumerates order h) (hfold : ∀ key ∈ order, fold key = key) : Normalized h := by
  intro key hkey
  rw [← Finmap.mem_keys, ← hord.2, mem_toFinset] at hkey
  exact hfold key hkey

theorem second_protocol_lost :
    Normalized (upgradeWith ["chat", "superchat"]) ∧
      Enumerates upgradeOrder (upgradeWith ["chat", "superchat"]) ∧
      Enumerates upgradeOrder' (Std.rewriteHeader (requestWith (upgradeWith ["chat", "superchat"]))) ∧
      ¬SameRequest
        (serveHTTP plainLibrary backendProxy upgradeOrder
          (requestWith (upgradeWith ["chat", "superchat"])))
        (Std.serveHTTP plainLibrary backendProxy upgradeOrder'
          (requestWith (upgradeWith ["chat", "superchat"]))) := by
  have hord : Enumerates upgradeOrder (upgradeWith ["chat", "superchat"]) := by decide
  refine ⟨normalized_of_enumerates hord (by decide), hord, by decide, ?_⟩
  have hfast : (serveHTTP plainLibrary backendProxy upgradeOrder
      (requestWith (upgradeWith ["chat", "superchat"]))).map
        (fun s => under fold s.fields "Sec-Websocket-Protocol") = some ["chat"] := by decide
  have hstd : (Std.serveHTTP plainLibrary backendProxy upgradeOrder'
      (requestWith (upgradeWith ["chat", "superchat"]))).map
        (fun s => under fold s.fields "Sec-Websocket-Protocol") = some ["chat", "superchat"] := by
    decide
  obtain ⟨s, hs, hone⟩ := Option.map_eq_some_iff.mp hfast
  obtain ⟨t, ht, htwo⟩ := Option.map_eq_some_iff.mp hstd
  rw [hs, ht]
  intro hsame
  have hperm := hsame.fields "Sec-Websocket-Protocol" (by decide) (by decide)
  rw [hone, htwo] at hperm
  exact absurd hperm (by decide)

theorem agree_upgradeWith : Agree plainLibrary (requestWith (upgradeWith ["chat"])) where
  query := .inr (by decide)
  header := by
    intro key hkey
    rw [← Finmap.mem_keys] at hkey
    revert key
    decide

theorem same_request_one_protocol :
    Normalized (upgradeWith ["chat"]) ∧ Enumerates upgradeOrder (upgradeWith ["chat"]) ∧
      Enumerates upgradeOrder' (Std.rewriteHeader (requestWith (upgradeWith ["chat"]))) ∧
      Agree plainLibrary (requestWith (upgradeWith ["chat"])) ∧
      SameRequest
        (serveHTTP plainLibrary backendProxy upgradeOrder
          (requestWith (upgradeWith ["chat"])))
        (Std.serveHTTP plainLibrary backendProxy upgradeOrder'
          (requestWith (upgradeWith ["chat"]))) := by
  have hord : Enumerates upgradeOrder (upgradeWith ["chat"]) := by decide
  have hnorm := normalized_of_enumerates hord (by decide)
  have hord' : Enumerates upgradeOrder'
      (Std.rewriteHeader (requestWith (upgradeWith ["chat"]))) := by decide
  exact ⟨hnorm, hord, hord', agree_upgradeWith,
    (same_request_iff plainLibrary backendProxy (requestWith (upgradeWith ["chat"])) hnorm
      upgradeOrder upgradeOrder' hord hord').mpr (.inr agree_upgradeWith)⟩

end Ingress.Forwarding
