import Ingress.Http.RequestHeader

/-! # Forward Authentication

    `writeHeader` of `pkg/middlewares/auth/forward.go`: the request that asks the authentication
    server about a request has a copy of its headers, without those that the `Connection` field
    names and those that are not allowed.  The headers that tell about the request are then
    written over it.  When the headers of the client are not trusted, what it has sent for these
    must not show.

    * `writeHeader`: the code.  The request to the server is new, so that its header is a copy.
    * `lookup_copied`: what is copied.
    * `independent_iff`: when nothing shows of the forwarding headers of the client. -/

open Ingress.Http Finmap

namespace Ingress.ForwardAuth

/-! ## The code -/

def hopHeaders : List String :=
  ["Connection", "Keep-Alive", "Te", "Trailers", "Transfer-Encoding", "Upgrade"]

def removeConnectionHeaders (h : HeaderMap) : HeaderMap :=
  let connection := h.values "Connection"
  let reqUpType := if containsToken connection "upgrade" then h.get "Upgrade" else ""
  let h := (options connection).foldl (fun h key => h.erase key) h
  if reqUpType.isEmpty then h.erase "Connection"
  else (h.set "Connection" "Upgrade").set "Upgrade" reqUpType

def filterForwardRequestHeaders (h : HeaderMap) (allowedHeaders : List String) : HeaderMap :=
  if allowedHeaders.isEmpty then h
  else
    allowedHeaders.foldl (fun filtered headerName =>
      let key := canonicalMIMEHeaderKey headerName
      if (h.values key).isEmpty then filtered else filtered.insert key (h.values key)) ∅

/-- The headers that are copied. -/
def copied (req : Request) (allowedHeaders : List String) : HeaderMap :=
  let h := hopHeaders.foldl (fun h key => h.erase key) (removeConnectionHeaders req.header)
  let h := if (req.header.lookup "User-Agent").isSome then h else h.set "User-Agent" ""
  filterForwardRequestHeaders h allowedHeaders

/-- A header with what the client has sent, when that is trusted, or with the own value. -/
def setForwarded (trustForwardHeader : Bool) (key sent own : String) (h : HeaderMap) : HeaderMap :=
  if !sent.isEmpty && trustForwardHeader then h.set key sent
  else if !own.isEmpty then h.set key own
  else h.erase key

/-- The part of `writeHeader` for `X-Forwarded-For`. -/
def setForwardedFor (req : Request) (trustForwardHeader : Bool) (h : HeaderMap) : HeaderMap :=
  match splitHostPort req.remoteAddr with
  | none => h
  | some (clientIP, _) =>
    match trustForwardHeader, req.header.lookup "X-Forwarded-For" with
    | true, some prior => h.set "X-Forwarded-For" (", ".intercalate prior ++ ", " ++ clientIP)
    | _, _ => h.set "X-Forwarded-For" clientIP

/-- The part of `writeHeader` for `X-Forwarded-Port`: there is no own value. -/
def setForwardedPort (trustForwardHeader : Bool) (sent : String) (h : HeaderMap) : HeaderMap :=
  if !sent.isEmpty && trustForwardHeader then h.set "X-Forwarded-Port" sent else h

def writeHeader (req : Request) (trustForwardHeader : Bool) (allowedHeaders : List String) :
    HeaderMap :=
  let sent := req.header.get
  let h := copied req allowedHeaders
  let h := setForwardedFor req trustForwardHeader h
  let h := setForwarded trustForwardHeader "X-Forwarded-Method" (sent "X-Forwarded-Method")
    req.method h
  let h := setForwarded trustForwardHeader "X-Forwarded-Proto" (sent "X-Forwarded-Proto")
    (if req.tls then "https" else "http") h
  let h := setForwardedPort trustForwardHeader (sent "X-Forwarded-Port") h
  let h := setForwarded trustForwardHeader "X-Forwarded-Host" (sent "X-Forwarded-Host") req.host h
  setForwarded trustForwardHeader "X-Forwarded-Uri" (sent "X-Forwarded-Uri") req.requestURI h

/-! ## What is copied -/

/-- The headers that are written. -/
def forwardHeaders : List String :=
  ["X-Forwarded-For", "X-Forwarded-Method", "X-Forwarded-Proto", "X-Forwarded-Port",
    "X-Forwarded-Host", "X-Forwarded-Uri"]

/-- A header is not copied: the `Connection` field of the request names it, or it is not
    allowed. -/
def Blocked (req : Request) (allowedHeaders : List String) (key : String) : Prop :=
  key ∈ options (req.header.values "Connection") ∨
    (allowedHeaders ≠ [] ∧ key ∉ allowedHeaders.map canonicalMIMEHeaderKey)

variable {key : String}

open HeaderMap

theorem lookup_removeConnectionHeaders (h : HeaderMap) (hconn : key ≠ "Connection")
    (hupgrade : key ≠ "Upgrade") : (removeConnectionHeaders h).lookup key =
      if key ∈ options (h.values "Connection") then none else h.lookup key := by
  have hlast : ∀ (h : HeaderMap) (up : String), (if up.isEmpty then
      h.erase "Connection" else (h.set "Connection" "Upgrade").set "Upgrade" up).lookup key =
        h.lookup key := by
    intro h up
    split
    · exact lookup_erase_ne hconn
    · rw [lookup_set_ne hupgrade, lookup_set_ne hconn]
  unfold removeConnectionHeaders
  rw [hlast, lookup_foldl_erase]

theorem lookup_filterForwardRequestHeaders (h : HeaderMap) {allowed : List String}
    (hne : allowed ≠ []) (key : String) :
    (filterForwardRequestHeaders h allowed).lookup key =
      if key ∈ allowed.map canonicalMIMEHeaderKey ∧ h.values key ≠ [] then some (h.values key)
      else none := by
  unfold filterForwardRequestHeaders
  rw [if_neg (by simpa using hne)]
  clear hne
  -- the names are gone through from the last one on
  induction allowed using List.reverseRecOn with
  | nil => simp
  | append_singleton names name ih =>
    rw [List.foldl_concat]
    dsimp only
    by_cases hkey : key = canonicalMIMEHeaderKey name
    · subst hkey
      by_cases hvals : h.values (canonicalMIMEHeaderKey name) = []
      · simp only [hvals, List.isEmpty_nil, if_true, ih]
        simp
      · simp [hvals, lookup_insert]
    · split
      · simp only [ih, List.map_append, List.map_singleton, List.mem_append, List.mem_singleton, hkey,
          or_false]
      · simp only [lookup_insert_of_ne _ hkey, ih, List.map_append, List.map_singleton,
          List.mem_append, List.mem_singleton, hkey, or_false]

/-- A header that is written is copied as it is, unless it is blocked. -/
theorem lookup_copied (req : Request) (allowed : List String) (hkey : key ∈ forwardHeaders) :
    (Blocked req allowed key → (copied req allowed).lookup key = none) ∧
      (¬ Blocked req allowed key → ∀ values, values ≠ [] →
        req.header.lookup key = some values → (copied req allowed).lookup key = some values) := by
  have hhop : key ∉ hopHeaders := (by decide : ∀ k ∈ forwardHeaders, k ∉ hopHeaders) key hkey
  have hagent : key ≠ "User-Agent" := by
    rintro rfl
    exact absurd hkey (by decide)
  have hconn : key ≠ "Connection" := fun heq => hhop (heq ▸ by decide)
  have hupgrade : key ≠ "Upgrade" := fun heq => hhop (heq ▸ by decide)
  unfold copied
  dsimp only
  generalize hh : (if (req.header.lookup "User-Agent").isSome then
      hopHeaders.foldl (fun h key => h.erase key) (removeConnectionHeaders req.header)
    else (hopHeaders.foldl (fun h key => h.erase key) (removeConnectionHeaders req.header)).set
      "User-Agent" "") = h
  have hlook : h.lookup key =
      if key ∈ options (req.header.values "Connection") then none else req.header.lookup key := by
    have hhops : (hopHeaders.foldl (fun h key => h.erase key)
        (removeConnectionHeaders req.header)).lookup key =
        if key ∈ options (req.header.values "Connection") then none else req.header.lookup key := by
      rw [lookup_foldl_erase, if_neg hhop, lookup_removeConnectionHeaders _ hconn hupgrade]
    rw [← hh]
    split
    · exact hhops
    · rw [lookup_set_ne hagent, hhops]
  by_cases hallowed : allowed = []
  · subst hallowed
    have hfilter : filterForwardRequestHeaders h [] = h := rfl
    rw [hfilter, hlook]
    constructor
    · intro hblocked
      rcases hblocked with hoption | ⟨hne, -⟩
      · exact if_pos hoption
      · exact absurd rfl hne
    · intro hfree values _ hvals
      rw [if_neg fun hoption => hfree (.inl hoption), hvals]
  · rw [lookup_filterForwardRequestHeaders h hallowed]
    constructor
    · intro hblocked
      refine if_neg fun ⟨hmem, hvals⟩ => ?_
      rcases hblocked with hoption | ⟨-, hnot⟩
      · rw [HeaderMap.values, hlook, if_pos hoption] at hvals
        exact hvals rfl
      · exact hnot hmem
    · intro hfree values hne hvals
      have hmem : key ∈ allowed.map canonicalMIMEHeaderKey := by
        by_contra hnot
        exact hfree (.inr ⟨hallowed, hnot⟩)
      have heq : h.values key = values := by
        rw [HeaderMap.values, hlook, if_neg fun hoption => hfree (.inl hoption), hvals]
        rfl
      rw [heq, if_pos ⟨hmem, hne⟩]

/-! ## What is written -/

theorem lookup_setForwarded (key sent own : String) (h : HeaderMap) :
    (setForwarded false key sent own h).lookup key = if own.isEmpty then none else some [own] := by
  unfold setForwarded
  by_cases hown : own.isEmpty = true
  · simp [hown]
  · simp [hown]

theorem lookup_setForwarded_ne {key key' : String} (hne : key ≠ key') (sent own : String)
    (h : HeaderMap) : (setForwarded false key' sent own h).lookup key = h.lookup key := by
  unfold setForwarded
  rw [Bool.and_false, if_neg Bool.false_ne_true]
  split
  · exact lookup_set_ne hne _
  · exact lookup_erase_ne hne

theorem lookup_setForwardedFor_ne {req : Request} (hne : key ≠ "X-Forwarded-For")
    (h : HeaderMap) : (setForwardedFor req false h).lookup key = h.lookup key := by
  unfold setForwardedFor
  split
  · rfl
  · exact lookup_set_ne hne _

theorem setForwardedPort_false (sent : String) (h : HeaderMap) : setForwardedPort false sent h = h := by
  rw [setForwardedPort, Bool.and_false, if_neg Bool.false_ne_true]

variable (req : Request) (allowedHeaders : List String)

/-- The port is as it was copied. -/
theorem lookup_port : (writeHeader req false allowedHeaders).lookup "X-Forwarded-Port" =
    (copied req allowedHeaders).lookup "X-Forwarded-Port" := by
  unfold writeHeader
  rw [lookup_setForwarded_ne (by decide), lookup_setForwarded_ne (by decide), setForwardedPort_false,
    lookup_setForwarded_ne (by decide), lookup_setForwarded_ne (by decide),
    lookup_setForwardedFor_ne (by decide)]

theorem lookup_for : (writeHeader req false allowedHeaders).lookup "X-Forwarded-For" =
    ((splitHostPort req.remoteAddr).map fun addr => [addr.1]).or
      ((copied req allowedHeaders).lookup "X-Forwarded-For") := by
  unfold writeHeader
  rw [lookup_setForwarded_ne (by decide), lookup_setForwarded_ne (by decide), setForwardedPort_false,
    lookup_setForwarded_ne (by decide), lookup_setForwarded_ne (by decide), setForwardedFor]
  cases splitHostPort req.remoteAddr with
  | none => rfl
  | some addr => exact lookup_set ..

/-- The other headers have values of the request alone. -/
theorem lookup_own :
    (writeHeader req false allowedHeaders).lookup "X-Forwarded-Method" =
      (if req.method.isEmpty then none else some [req.method]) ∧
    (writeHeader req false allowedHeaders).lookup "X-Forwarded-Proto" =
      some [if req.tls then "https" else "http"] ∧
    (writeHeader req false allowedHeaders).lookup "X-Forwarded-Host" =
      (if req.host.isEmpty then none else some [req.host]) ∧
    (writeHeader req false allowedHeaders).lookup "X-Forwarded-Uri" =
      if req.requestURI.isEmpty then none else some [req.requestURI] := by
  unfold writeHeader
  dsimp only
  rw [setForwardedPort_false]
  refine ⟨?_, ?_, ?_, lookup_setForwarded ..⟩
  · rw [lookup_setForwarded_ne (by decide), lookup_setForwarded_ne (by decide),
      lookup_setForwarded_ne (by decide), lookup_setForwarded]
  · rw [lookup_setForwarded_ne (by decide), lookup_setForwarded_ne (by decide), lookup_setForwarded]
    cases req.tls with
    | true => rfl
    | false => rfl
  · rw [lookup_setForwarded_ne (by decide), lookup_setForwarded]

/-! ## What shows of the client's headers -/

variable {req allowedHeaders}

/-- Whether a header is blocked does not depend on the forwarding headers. -/
theorem blocked_congr {req' : Request} (h : Request.SameBut forwardHeaders req req') :
    Blocked req allowedHeaders key ↔ Blocked req' allowedHeaders key := by
  have hconn : req.header.values "Connection" = req'.header.values "Connection" := by
    rw [HeaderMap.values, h.header _ (by decide)]
    rfl
  rw [Blocked, Blocked, hconn]

/-- The request with another value for a header. -/
def withHeader (req : Request) (key value : String) : Request :=
  { req with header := req.header.set key value }

theorem sameBut_withHeader (hkey : key ∈ forwardHeaders) (value : String) :
    Request.SameBut forwardHeaders req (withHeader req key value) := by
  refine ⟨rfl, rfl, rfl, rfl, rfl, fun k hk => ?_⟩
  have hne : k ≠ key := fun heq => hk (heq ▸ hkey)
  exact (lookup_set_ne hne value).symm

/-- A header that is copied, and not written over, shows. -/
theorem blocked_of_same (hkey : key ∈ forwardHeaders)
    (hsame : ∀ req', Request.SameBut forwardHeaders req req' →
      (copied req allowedHeaders).lookup key = (copied req' allowedHeaders).lookup key) :
    Blocked req allowedHeaders key := by
  by_contra hfree
  have hshows : ∀ value, (copied req allowedHeaders).lookup key = some [value] := by
    intro value
    have hother : Request.SameBut forwardHeaders req (withHeader req key value) :=
      sameBut_withHeader hkey value
    rw [hsame _ hother]
    refine (lookup_copied _ _ hkey).2 (fun hblocked => hfree ((blocked_congr hother).mpr hblocked))
      [value] (by simp) ?_
    exact lookup_set ..
  have heq := (hshows "1").symm.trans (hshows "2")
  exact absurd heq (by decide)

/-- **Nothing shows of the forwarding headers of the client** exactly when `X-Forwarded-Port` is
    blocked, and `X-Forwarded-For` as well unless the address of the client can be split. -/
theorem independent_iff (req : Request) (allowedHeaders : List String) :
    (∀ req', Request.SameBut forwardHeaders req req' → ∀ key ∈ forwardHeaders,
      (writeHeader req false allowedHeaders).lookup key =
        (writeHeader req' false allowedHeaders).lookup key) ↔
    Blocked req allowedHeaders "X-Forwarded-Port" ∧
      ((splitHostPort req.remoteAddr).isSome = true ∨ Blocked req allowedHeaders "X-Forwarded-For") := by
  constructor
  · intro hsame
    constructor
    · refine blocked_of_same (by decide) fun req' hreq' => ?_
      rw [← lookup_port, ← lookup_port]
      exact hsame req' hreq' _ (by decide)
    · cases haddr : splitHostPort req.remoteAddr with
      | some addr => exact .inl rfl
      | none =>
        refine .inr (blocked_of_same (by decide) fun req' hreq' => ?_)
        have hfor := hsame req' hreq' "X-Forwarded-For" (by decide)
        rw [lookup_for, lookup_for, ← hreq'.remoteAddr, haddr] at hfor
        exact hfor
  · intro ⟨hport, hfor⟩ req' hreq' key hkey
    have hown := lookup_own req allowedHeaders
    have hown' := lookup_own req' allowedHeaders
    rw [← hreq'.method, ← hreq'.tls, ← hreq'.host, ← hreq'.requestURI] at hown'
    have hnone : ∀ k ∈ forwardHeaders, Blocked req allowedHeaders k →
        (copied req allowedHeaders).lookup k = none ∧ (copied req' allowedHeaders).lookup k = none :=
      fun k hk hblocked => ⟨(lookup_copied _ _ hk).1 hblocked,
        (lookup_copied _ _ hk).1 ((blocked_congr hreq').mp hblocked)⟩
    have hfors : (writeHeader req false allowedHeaders).lookup "X-Forwarded-For" =
        (writeHeader req' false allowedHeaders).lookup "X-Forwarded-For" := by
      rw [lookup_for, lookup_for, ← hreq'.remoteAddr]
      rcases hfor with haddr | hblocked
      · obtain ⟨addr, haddr⟩ := Option.isSome_iff_exists.mp haddr
        rw [haddr]
        rfl
      · obtain ⟨hreq, hreq'⟩ := hnone _ (by decide) hblocked
        rw [hreq, hreq']
    have hports : (writeHeader req false allowedHeaders).lookup "X-Forwarded-Port" =
        (writeHeader req' false allowedHeaders).lookup "X-Forwarded-Port" := by
      obtain ⟨hreq, hreq'⟩ := hnone _ (by decide) hport
      rw [lookup_port, lookup_port, hreq, hreq']
    simp only [forwardHeaders, List.mem_cons, List.not_mem_nil, or_false] at hkey
    rcases hkey with rfl | rfl | rfl | rfl | rfl | rfl
    · exact hfors
    · exact hown.1.trans hown'.1.symm
    · exact hown.2.1.trans hown'.2.1.symm
    · exact hports
    · exact hown.2.2.1.trans hown'.2.2.1.symm
    · exact hown.2.2.2.trans hown'.2.2.2.symm

/-- A request with a port of the client's choice. -/
def portSent (port : String) : Request :=
  ⟨"GET", "/", "example.com", "10.0.0.1:4711", false, (∅ : HeaderMap).insert "X-Forwarded-Port" [port]⟩

/-- The port that a client sends is relayed to the authentication server. -/
theorem port_relayed : Request.SameBut forwardHeaders (portSent "443") (portSent "8080") ∧
    (writeHeader (portSent "443") false []).lookup "X-Forwarded-Port" = some ["443"] ∧
    (writeHeader (portSent "8080") false []).lookup "X-Forwarded-Port" = some ["8080"] := by
  have hport : ∀ port, (writeHeader (portSent port) false []).lookup "X-Forwarded-Port" =
      some [port] := by
    intro port
    rw [lookup_port]
    refine (lookup_copied _ _ (by decide)).2 ?_ [port] (by simp) (lookup_insert _)
    intro hblocked
    rcases hblocked with hoption | ⟨hne, -⟩
    · have hconn : (portSent port).header.values "Connection" = [] := by
        have hlook : (portSent port).header.lookup "Connection" = none :=
          lookup_insert_of_ne _ (by decide)
        rfl
      rw [hconn] at hoption
      exact absurd hoption (by decide)
    · exact hne rfl
  refine ⟨⟨rfl, rfl, rfl, rfl, rfl, fun key hkey => ?_⟩, hport "443", hport "8080"⟩
  have hne : key ≠ "X-Forwarded-Port" := by
    rintro rfl
    exact absurd hkey (by decide)
  show (insert _ _ _).lookup key = (insert _ _ _).lookup key
  rw [lookup_insert_of_ne _ hne, lookup_insert_of_ne _ hne]

end Ingress.ForwardAuth
