import Ingress.Http.Path

/-! # Middlewares that rewrite the path

    `pkg/middlewares/stripprefix`, `stripprefixregex`, `addprefix` and `replacepathregex`.  Each
    of them edits the decoded path of a URL and, where there is one, the path as it was received.

    The two are edited apart: prefixes are found in the decoded path, and taken from, or put in
    front of, both.

    * `Middleware.serveHTTP`: the code.
    * `Consistent`: the decoded path is what the received one stands for.
    * `Literal`: a prefix stands in the received path as it does in the decoded one.
    * `chain_consistent_iff`: when a chain of middlewares keeps its URLs consistent. -/

open List Percent Option

namespace Ingress.PathRewrite

open RequestPath

/-! ## The code -/

/-- What the middlewares read and write of a request: the path, the query (with `ForceQuery`, also
    an empty one), the URI, and the values they add to the header. -/
structure Request where
  url : URL
  query : Option Bytes
  requestURI : Bytes
  header : List (String × Bytes)

/-- `URL.RequestURI`, without an opaque part. -/
def uri (u : URL) (query : Option Bytes) : Bytes :=
  let path := if u.escapedPath = [] then [slash] else u.escapedPath
  match query with
  | some query => path ++ chr '?' :: query
  | none => path

/-- What a middleware does with a request. -/
inductive Served where
  | next (req : Request)
  | internalServerError
  | panic

def ensureLeadingSlash (str : Bytes) : Bytes :=
  match str with
  | [] => []
  | c :: rest => if c = slash then c :: rest else slash :: c :: rest

def trimPrefix (str pre : Bytes) : Bytes :=
  if pre.isPrefixOf str then str.drop pre.length else str

def getPrefixStripped (forceSlash : Bool) (urlPath pre : Bytes) : Bytes :=
  if forceSlash then slash :: trimPrefix (trimPrefix urlPath pre) [slash]
  else ensureLeadingSlash (trimPrefix urlPath pre)

/-- The white space of `strings.TrimSpace`, in UTF-8. -/
def spaces : List Bytes :=
  [[9], [10], [11], [12], [13], [32], [0xc2, 0x85], [0xc2, 0xa0], [0xe1, 0x9a, 0x80]] ++
    (List.range 11).map (fun i => [0xe2, 0x80, 0x80 + UInt8.ofNat i]) ++
    [[0xe2, 0x80, 0xa8], [0xe2, 0x80, 0xa9], [0xe2, 0x80, 0xaf], [0xe2, 0x81, 0x9f],
      [0xe3, 0x80, 0x80]]

/-- The text without the white space it begins with; `fuel` is its length. -/
def trimLeft (spaces : List Bytes) : ℕ → Bytes → Bytes
  | 0, s => s
  | fuel + 1, s =>
    match spaces.find? (·.isPrefixOf s) with
    | some space => trimLeft spaces fuel (s.drop space.length)
    | none => s

def trimSpace (s : Bytes) : Bytes :=
  let s := trimLeft spaces s.length s
  (trimLeft (spaces.map List.reverse) s.length s.reverse).reverse

/-- The middlewares with their configurations.  An expression is given by the text of its first
    match in a path, or by what it matches and what its replacement makes of a path. -/
inductive Middleware where
  | stripPrefix (prefixes : List Bytes) (forceSlash : Bool)
  | stripPrefixRegex (expressions : List (Bytes → Option Bytes))
  | addPrefix (pre : Bytes) (nonempty : pre ≠ [])
  | replacePathRegex (matchString : Bytes → Bool) (replaceAllString : Bytes → Bytes)

/-- The prefix that `StripPrefix` removes from a path. -/
def strippedPrefix (prefixes : List Bytes) (path : Bytes) : Option Bytes :=
  prefixes.find? (·.isPrefixOf path)

/-- The prefix that `StripPrefixRegex` removes from a path. -/
def matchedPrefix (expressions : List (Bytes → Option Bytes)) (path : Bytes) : Option Bytes :=
  expressions.findSome? fun find =>
    (find path).filter fun pre => !pre.isEmpty && pre.isPrefixOf path

/-- `ServeHTTP` of `stripPrefix`. -/
def serveStripPrefix (prefixes : List Bytes) (forceSlash : Bool) (req : Request) : Served :=
  match strippedPrefix prefixes req.url.path with
  | none => .next req
  | some pre =>
    let url : URL :=
      { path := getPrefixStripped forceSlash req.url.path pre
        rawPath := if req.url.rawPath = [] then []
          else getPrefixStripped forceSlash req.url.rawPath pre }
    .next { req with
      url
      requestURI := uri url req.query
      header := req.header ++ [("X-Forwarded-Prefix", trimSpace pre)] }

/-- `ServeHTTP` of `stripPrefixRegex`.  The prefix is cut from the received path by its length. -/
def serveStripPrefixRegex (expressions : List (Bytes → Option Bytes)) (req : Request) : Served :=
  match matchedPrefix expressions req.url.path with
  | none => .next req
  | some pre =>
    if req.url.rawPath ≠ [] ∧ req.url.rawPath.length < pre.length then .panic
    else
      let url : URL :=
        { path := ensureLeadingSlash (req.url.path.drop pre.length)
          rawPath := if req.url.rawPath = [] then []
            else ensureLeadingSlash (req.url.rawPath.drop pre.length) }
      .next { req with
        url
        requestURI := uri url req.query
        header := req.header ++ [("X-Forwarded-Prefix", pre)] }

/-- `ServeHTTP` of `addPrefix`. -/
def serveAddPrefix (pre : Bytes) (req : Request) : Served :=
  let url : URL :=
    { path := ensureLeadingSlash (pre ++ req.url.path)
      rawPath := if req.url.rawPath = [] then []
        else ensureLeadingSlash (pre ++ req.url.rawPath) }
  .next { req with url, requestURI := uri url req.query }

/-- `ServeHTTP` of `replacePathRegex`. -/
def serveReplacePathRegex (matchString : Bytes → Bool) (replaceAllString : Bytes → Bytes)
    (req : Request) : Served :=
  let currentPath := if req.url.rawPath = [] then req.url.escapedPath else req.url.rawPath
  if matchString currentPath then
    let rawPath := replaceAllString currentPath
    match unescape rawPath with
    | none => .internalServerError
    | some path =>
      let url : URL := { path, rawPath }
      .next { req with
        url
        requestURI := uri url req.query
        header := req.header ++ [("X-Replaced-Path", currentPath)] }
  else .next req

def Middleware.serveHTTP : Middleware → Request → Served
  | .stripPrefix prefixes forceSlash => serveStripPrefix prefixes forceSlash
  | .stripPrefixRegex expressions => serveStripPrefixRegex expressions
  | .addPrefix pre _ => serveAddPrefix pre
  | .replacePathRegex matchString replaceAllString =>
    serveReplacePathRegex matchString replaceAllString

/-- What a chain does: the requests that its middlewares give to the next handler, in order, and
    whether one of them panics. -/
structure Trace where
  passed : List Request
  panicked : Bool

/-- A chain of middlewares. -/
def run : List Middleware → Request → Trace
  | [], _ => ⟨[], false⟩
  | m :: chain, req =>
    match m.serveHTTP req with
    | .next req' => ⟨req' :: (run chain req').passed, (run chain req').panicked⟩
    | .internalServerError => ⟨[], false⟩
    | .panic => ⟨[], true⟩

/-! ## Consistent URLs -/

/-- The decoded path is what the received one stands for, if there is one. -/
def Consistent (u : URL) : Prop :=
  u.rawPath = [] ∨ unescape u.rawPath = some u.path

/-- A slash in its encoded form comes first. -/
def EncodedSlash (s : Bytes) : Prop :=
  s.take 3 = ascii "%2F" ∨ s.take 3 = ascii "%2f"

instance (s : Bytes) : Decidable (EncodedSlash s) :=
  inferInstanceAs (Decidable (_ ∨ _))

/-- The received path begins with the prefix as it is, without encoded bytes in it, and with no
    encoded slash after it. -/
def Literal (pre rawPath : Bytes) : Prop :=
  pre <+: rawPath ∧ percent ∉ pre ∧ ¬ EncodedSlash (rawPath.drop pre.length)

/-- When a middleware keeps a URL consistent. -/
def Middleware.Keeps (m : Middleware) (u : URL) : Prop :=
  match m with
  | .stripPrefix prefixes _ =>
    ∀ pre, strippedPrefix prefixes u.path = some pre → u.rawPath = [] ∨ Literal pre u.rawPath
  | .stripPrefixRegex expressions =>
    ∀ pre, matchedPrefix expressions u.path = some pre → u.rawPath = [] ∨ Literal pre u.rawPath
  | .addPrefix pre _ => u.rawPath = [] ∨ percent ∉ pre
  | .replacePathRegex _ _ => True

/-- All middlewares that a request comes to keep its URL consistent. -/
def Kept : List Middleware → Request → Prop
  | [], _ => True
  | m :: chain, req => m.Keeps req.url ∧ ∀ req', m.serveHTTP req = .next req' → Kept chain req'

/-! ## The slash in front -/

/-- How many slashes `getPrefixStripped` puts in front. -/
def added (forceSlash : Bool) (s : Bytes) : ℕ :=
  if s.head? = some slash then 0 else if s = [] ∧ forceSlash = false then 0 else 1

/-- The path with a slash in front. -/
def lead (forceSlash : Bool) (s : Bytes) : Bytes :=
  List.replicate (added forceSlash s) slash ++ s

theorem ensureLeadingSlash_eq (s : Bytes) : ensureLeadingSlash s = lead false s := by
  cases s with
  | nil => rfl
  | cons c s =>
    by_cases hc : c = slash <;> simp [ensureLeadingSlash, lead, added, hc]

variable (forceSlash : Bool)

theorem getPrefixStripped_eq (urlPath pre : Bytes) :
    getPrefixStripped forceSlash urlPath pre = lead forceSlash (trimPrefix urlPath pre) := by
  unfold getPrefixStripped
  cases forceSlash with
  | false => exact ensureLeadingSlash_eq _
  | true =>
    cases trimPrefix urlPath pre with
    | nil => rfl
    | cons c s =>
      by_cases hc : c = slash
      · simp [trimPrefix, lead, added, hc]
      · simp [trimPrefix, lead, added, hc, Ne.symm hc]

theorem added_le_one (s : Bytes) : added forceSlash s ≤ 1 := by
  unfold added
  split
  · exact Nat.zero_le 1
  · split
    · exact Nat.zero_le 1
    · exact Nat.le_refl 1

theorem percent_notMem_replicate (n : ℕ) : percent ∉ replicate n slash := by
  intro h
  exact absurd (eq_of_mem_replicate h) (by decide)

theorem count_lead (s : Bytes) : (lead forceSlash s).count percent = s.count percent := by
  rw [lead, count_append, count_eq_zero.mpr (percent_notMem_replicate _), Nat.zero_add]

theorem unescape_lead (s : Bytes) : unescape (lead forceSlash s) =
    (unescape s).map (replicate (added forceSlash s) slash ++ ·) :=
  unescape_append (percent_notMem_replicate _) s

/-! ## Slashes, encoded or not -/

theorem decode_eq_slash : ∀ hi ∈ hexDigits, ∀ lo ∈ hexDigits, decode hi lo = slash ↔
    [percent, hi, lo] = ascii "%2F" ∨ [percent, hi, lo] = ascii "%2f" := by
  decide +kernel

theorem added_of_encodedSlash {force : Bool} {s : Bytes} (h : EncodedSlash s) :
    added force s = 1 := by
  have hhead : s.head? = some percent := by
    cases s with
    | nil => rcases h with h | h <;> cases h
    | cons c s => rcases h with h | h <;> exact congrArg head? h
  have hne : s ≠ [] := by
    rintro rfl
    cases hhead
  have hslash : s.head? ≠ some slash := by
    rw [hhead]
    decide
  rw [added, if_neg hslash, if_neg fun hnil => hne hnil.1]

/-- A decoded path begins with a slash when the received one does, in either form. -/
theorem head_slash_iff {s v : Bytes} (h : unescape s = some v) :
    v.head? = some slash ↔ s.head? = some slash ∨ EncodedSlash s := by
  obtain ⟨ps, rfl, rfl⟩ := exists_pieces h
  cases ps with
  | nil => simp [EncodedSlash, ascii]
  | cons p ps =>
    cases p with
    | plain b hb =>
      have hnot : ¬ EncodedSlash (b :: write ps) := by
        rintro (heq | heq) <;>
        · have hhead := congrArg head? heq
          simp [ascii] at hhead
          exact hb hhead
      simp [hnot, Piece.bytes, Piece.value]
    | encoded hi lo hhi hlo =>
      have hne : percent ≠ slash := by decide
      have hdecode := decode_eq_slash hi (mem_hexDigits hi hhi).1 lo (mem_hexDigits lo hlo).1
      simp only [map_cons, Piece.value, head?_cons, some.injEq, write_cons,
        Piece.bytes, cons_append, hne, false_or, hdecode]
      rfl

/-- A path is empty when the received one is. -/
theorem eq_nil_iff {s v : Bytes} (h : unescape s = some v) : v = [] ↔ s = [] := by
  constructor
  · rintro rfl
    obtain ⟨ps, rfl, hps⟩ := exists_pieces h
    rw [map_eq_nil_iff.mp hps.symm]
    rfl
  · rintro rfl
    exact (some.inj h).symm

/-! ## Prefixes that are removed -/

/-- A prefix of the decoded path and as many bytes of the received one are removed: the rest is
    consistent exactly when these bytes are the prefix, none of them encoded, and no encoded slash
    comes after them. -/
theorem cut_iff {pre rest cut rawRest : Bytes}
    (h : unescape (cut ++ rawRest) = some (pre ++ rest)) (hlen : cut.length = pre.length) :
    (lead forceSlash rawRest = [] ∨ unescape (lead forceSlash rawRest) = some (lead forceSlash rest)) ↔
      cut = pre ∧ percent ∉ pre ∧ ¬ EncodedSlash rawRest := by
  have hlength := length_of_unescape h
  rw [length_append, length_append, count_append] at hlength
  -- without encoded bytes, what is removed stands for itself
  have hplain : cut.count percent = 0 →
      cut = pre ∧ percent ∉ pre ∧ unescape rawRest = some rest := by
    intro hcount
    have hnot : percent ∉ cut := count_eq_zero.mp hcount
    rw [unescape_append hnot] at h
    obtain ⟨v, hv, heq⟩ := map_eq_some_iff.mp h
    obtain ⟨rfl, rfl⟩ := append_inj heq hlen
    exact ⟨rfl, hnot, hv⟩
  constructor
  · rintro (hnil | hdecoded)
    · obtain rfl : rawRest = [] := (append_eq_nil_iff.mp hnil).2
      rw [length_nil] at hlength
      obtain ⟨hcut, hpct, _⟩ := hplain (by omega)
      exact ⟨hcut, hpct, by decide⟩
    · -- an encoded byte takes two bytes more, and at most one slash is put in front
      have hlead := length_of_unescape hdecoded
      rw [count_lead, lead, lead, length_append, length_append, length_replicate,
        length_replicate] at hlead
      have hle := added_le_one forceSlash rest
      obtain ⟨hcut, hpct, hrest⟩ := hplain (by omega)
      refine ⟨hcut, hpct, fun hslash => ?_⟩
      have hhead := (head_slash_iff hrest).mpr (.inr hslash)
      have hrest0 : added forceSlash rest = 0 := by rw [added, if_pos hhead]
      have hraw1 : added forceSlash rawRest = 1 := added_of_encodedSlash hslash
      omega
  · rintro ⟨rfl, hpct, hslash⟩
    obtain ⟨_, _, hrest⟩ := hplain (count_eq_zero.mpr hpct)
    have hadded : added forceSlash rawRest = added forceSlash rest := by
      simp only [added, head_slash_iff hrest, eq_nil_iff hrest, hslash, or_false]
    refine .inr ?_
    rw [unescape_lead, hrest, hadded]
    rfl

/-- A prefix of the decoded path that the received one does not begin with stays in the latter. -/
theorem not_uncut {pre rest raw : Bytes} (h : unescape raw = some (pre ++ rest))
    (hne : raw ≠ []) (hnot : ¬ pre <+: raw) :
    ¬ (lead forceSlash raw = [] ∨ unescape (lead forceSlash raw) = some (lead forceSlash rest)) := by
  rintro (hnil | hdecoded)
  · exact hne (append_eq_nil_iff.mp hnil).2
  · have hlen := length_of_unescape h
    have hlead := length_of_unescape hdecoded
    rw [length_append] at hlen
    rw [count_lead, lead, lead, length_append, length_append, length_replicate,
      length_replicate] at hlead
    have hle := added_le_one forceSlash rest
    have hpre : pre ≠ [] := by
      rintro rfl
      exact hnot nil_prefix
    have hpos := length_pos_iff.mpr hpre
    -- the prefix is one byte, and no slash is put in front of the received path
    obtain ⟨b, rfl⟩ := length_eq_one_iff.mp (show pre.length = 1 by omega)
    have hadded : added forceSlash raw = 0 := by
      omega
    have hhead : raw.head? = some slash := by
      unfold added at hadded
      split at hadded
      · assumption
      · rw [if_neg fun hnil => hne hnil.1] at hadded
        cases hadded
    have hb : b = slash := by
      have := (head_slash_iff h).mpr (.inl hhead)
      simpa using this
    cases raw with
    | nil => exact hne rfl
    | cons c raw =>
      rw [head?_cons] at hhead
      apply hnot
      rw [hb, ← some.inj hhead]
      exact prefix_append [c] raw

/-- Removal of a literal prefix from a consistent URL. -/
theorem strip_consistent_iff {path raw pre : Bytes}
    (h : unescape raw = some path) (hne : raw ≠ []) (hpre : pre <+: path) :
    (lead forceSlash (trimPrefix raw pre) = [] ∨
      unescape (lead forceSlash (trimPrefix raw pre)) = some (lead forceSlash (path.drop pre.length))) ↔
      Literal pre raw := by
  obtain ⟨rest, rfl⟩ := hpre
  rw [drop_left]
  by_cases hraw : pre <+: raw
  · obtain ⟨rawRest, rfl⟩ := hraw
    rw [trimPrefix, if_pos (List.isPrefixOf_iff_prefix.mpr (prefix_append _ _)), drop_left,
      cut_iff forceSlash h rfl]
    simp [Literal]
  · rw [trimPrefix, if_neg (by rwa [List.isPrefixOf_iff_prefix])]
    exact iff_of_false (not_uncut forceSlash h hne hraw) fun hliteral => hraw hliteral.1

/-- Removal of as many bytes. -/
theorem drop_consistent_iff {path raw pre : Bytes} (h : unescape raw = some path)
    (hpre : pre <+: path) :
    (lead false (raw.drop pre.length) = [] ∨
      unescape (lead false (raw.drop pre.length)) = some (lead false (path.drop pre.length))) ↔
      Literal pre raw := by
  obtain ⟨rest, rfl⟩ := hpre
  have hlen := length_of_unescape h
  rw [length_append] at hlen
  have hcut : (raw.take pre.length).length = pre.length := by
    rw [length_take]
    omega
  rw [drop_left]
  nth_rewrite 1 [← take_append_drop pre.length raw] at h
  rw [cut_iff false h hcut, Literal, prefix_iff_eq_take, eq_comm]

/-! ## Prefixes that are added -/

theorem add_consistent_iff {path raw pre : Bytes} (h : unescape raw = some path) (hpre : pre ≠ []) :
    (lead false (pre ++ raw) = [] ∨
      unescape (lead false (pre ++ raw)) = some (lead false (pre ++ path))) ↔ percent ∉ pre := by
  have hadded : added false (pre ++ raw) = added false (pre ++ path) := by
    cases pre with
    | nil => exact absurd rfl hpre
    | cons c pre => simp [added]
  constructor
  · rintro (hnil | hdecoded)
    · exact absurd (append_eq_nil_iff.mp (append_eq_nil_iff.mp hnil).2).1 hpre
    · have hlen := length_of_unescape h
      have hlead := length_of_unescape hdecoded
      rw [count_lead, lead, lead, hadded] at hlead
      simp only [length_append, length_replicate, count_append] at hlead
      exact count_eq_zero.mp (by omega)
  · intro hpct
    refine .inr ?_
    rw [unescape_lead, unescape_append hpct, h, hadded]
    rfl

/-! ## One middleware -/

theorem matchedPrefix_prefix {exprs : List (Bytes → Option Bytes)} {path pre : Bytes}
    (h : matchedPrefix exprs path = some pre) : pre <+: path := by
  obtain ⟨find, _, hfind⟩ := exists_of_findSome?_eq_some h
  have hfilter := (filter_eq_some_iff.mp hfind).2
  rw [Bool.and_eq_true] at hfilter
  exact List.isPrefixOf_iff_prefix.mp hfilter.2

open Middleware

variable {req : Request}

theorem stripPrefix_consistent {pres : List Bytes} {force : Bool} {req' : Request}
    (h : Consistent req.url) (hnext : serveStripPrefix pres force req = .next req') :
    Consistent req'.url ↔ (stripPrefix pres force).Keeps req.url := by
  unfold serveStripPrefix at hnext
  simp only [Middleware.Keeps]
  cases hpre : strippedPrefix pres req.url.path with
  | none =>
    rw [hpre] at hnext
    cases hnext
    simp [h]
  | some pre =>
    rw [hpre] at hnext
    cases hnext
    have hfound : isPrefixOf pre req.url.path = true := by
      have := find?_some hpre
      exact this
    have hprefix : pre <+: req.url.path := List.isPrefixOf_iff_prefix.mp hfound
    have htrim : trimPrefix req.url.path pre = req.url.path.drop pre.length := by
      rw [trimPrefix, if_pos (List.isPrefixOf_iff_prefix.mpr hprefix)]
    simp only [some.injEq, forall_eq', Consistent, getPrefixStripped_eq, htrim]
    by_cases hraw : req.url.rawPath = []
    · simp [hraw]
    · rw [if_neg hraw, or_iff_right hraw]
      exact strip_consistent_iff force (h.resolve_left hraw) hraw hprefix

theorem stripPrefixRegex_consistent {exprs : List (Bytes → Option Bytes)} (h : Consistent req.url) :
    serveStripPrefixRegex exprs req ≠ .panic ∧
    ∀ req', serveStripPrefixRegex exprs req = .next req' →
      (Consistent req'.url ↔ (stripPrefixRegex exprs).Keeps req.url) := by
  unfold serveStripPrefixRegex
  simp only [Middleware.Keeps]
  cases hpre : matchedPrefix exprs req.url.path with
  | none =>
    refine ⟨nofun, fun req' hnext => ?_⟩
    cases hnext
    simp [h]
  | some pre =>
    have hprefix := matchedPrefix_prefix hpre
    -- the received path is not shorter than the decoded one
    have hlong : ¬ (req.url.rawPath ≠ [] ∧ req.url.rawPath.length < pre.length) := by
      rintro ⟨hraw, hlt⟩
      have hlen := length_of_unescape (h.resolve_left hraw)
      have hle := hprefix.length_le
      omega
    simp only [if_neg hlong]
    refine ⟨nofun, fun req' hnext => ?_⟩
    cases hnext
    simp only [some.injEq, forall_eq', Consistent, ensureLeadingSlash_eq]
    by_cases hraw : req.url.rawPath = []
    · simp [hraw]
    · rw [if_neg hraw, or_iff_right hraw]
      exact drop_consistent_iff (h.resolve_left hraw) hprefix

theorem addPrefix_consistent {pre : Bytes} (hpre : pre ≠ []) {req' : Request}
    (h : Consistent req.url) (hnext : serveAddPrefix pre req = .next req') :
    Consistent req'.url ↔ (addPrefix pre hpre).Keeps req.url := by
  cases hnext
  simp only [Middleware.Keeps, Consistent, ensureLeadingSlash_eq]
  by_cases hraw : req.url.rawPath = []
  · simp [hraw]
  · rw [if_neg hraw, or_iff_right hraw]
    exact add_consistent_iff (h.resolve_left hraw) hpre

/-- What `replacePathRegex` gives to the next handler is consistent. -/
theorem replacePathRegex_consistent {ms : Bytes → Bool} {replace : Bytes → Bytes}
    (h : Consistent req.url) :
    serveReplacePathRegex ms replace req ≠ .panic ∧
    ∀ req', serveReplacePathRegex ms replace req = .next req' →
      Consistent req'.url := by
  unfold serveReplacePathRegex
  generalize (if req.url.rawPath = [] then req.url.escapedPath else req.url.rawPath) = currentPath
  dsimp only
  split
  · split
    · exact ⟨nofun, nofun⟩
    · next path hpath =>
      refine ⟨nofun, fun req' hnext => ?_⟩
      cases hnext
      exact .inr hpath
  · refine ⟨nofun, fun req' hnext => ?_⟩
    cases hnext
    exact h

/-- **One middleware**: from a consistent URL it does not panic, and it goes on with a consistent
    URL exactly when it keeps it so. -/
theorem serveHTTP_consistent (m : Middleware) (h : Consistent req.url) :
    m.serveHTTP req ≠ .panic ∧
    ∀ req', m.serveHTTP req = .next req' → (Consistent req'.url ↔ m.Keeps req.url) := by
  cases m with
  | stripPrefix pres force =>
    refine ⟨?_, fun _ => stripPrefix_consistent h⟩
    show serveStripPrefix pres force req ≠ .panic
    unfold serveStripPrefix
    split <;> nofun
  | stripPrefixRegex exprs => exact stripPrefixRegex_consistent h
  | addPrefix pre hpre => exact ⟨nofun, fun _ => addPrefix_consistent hpre h⟩
  | replacePathRegex ms replace =>
    obtain ⟨hpanic, hnext⟩ := replacePathRegex_consistent h
    exact ⟨hpanic, fun req' hserve => iff_of_true (hnext req' hserve) trivial⟩

/-- Only a replacement is answered. -/
theorem keeps_of_answered {m : Middleware}
    (hserve : m.serveHTTP req = .internalServerError) : m.Keeps req.url := by
  cases m with
  | stripPrefix pres force =>
    replace hserve : serveStripPrefix pres force req = .internalServerError := hserve
    unfold serveStripPrefix at hserve
    split at hserve <;> cases hserve
  | stripPrefixRegex exprs =>
    replace hserve : serveStripPrefixRegex exprs req = .internalServerError := hserve
    unfold serveStripPrefixRegex at hserve
    split at hserve
    · cases hserve
    · split at hserve <;> cases hserve
  | addPrefix pre hpre => cases hserve
  | replacePathRegex ms replaceAllString => trivial

/-! ## Chains -/

/-- **Consistent chains**: from a request with a consistent URL, all URLs that the middlewares of
    a chain go on with are consistent, and none panics, exactly when every middleware the request
    comes to keeps its URL consistent: a prefix is removed from a received path only where it stands
    there without encoded bytes, and with no encoded slash after it, and a prefix that is put in
    front of a received path has no `%`. -/
theorem chain_consistent_iff (chain : List Middleware) {req : Request} (h : Consistent req.url) :
    ((∀ req' ∈ (run chain req).passed, Consistent req'.url) ∧ (run chain req).panicked = false) ↔
      Kept chain req := by
  induction chain generalizing req with
  | nil => simp [run, Kept]
  | cons m chain ih =>
    obtain ⟨hpanic, hnext⟩ := serveHTTP_consistent m h
    unfold run Kept
    cases hserve : m.serveHTTP req with
    | panic => exact absurd hserve hpanic
    | internalServerError => simp [keeps_of_answered hserve]
    | next req' =>
      have hkeeps := hnext req' hserve
      simp only [forall_mem_cons, Served.next.injEq, forall_eq']
      constructor
      · rintro ⟨⟨hfirst, hrest⟩, hpanicked⟩
        exact ⟨hkeeps.mp hfirst, (ih hfirst).mp ⟨hrest, hpanicked⟩⟩
      · rintro ⟨hm, hchain⟩
        have hfirst := hkeeps.mpr hm
        obtain ⟨hrest, hpanicked⟩ := (ih hfirst).mpr hchain
        exact ⟨⟨hfirst, hrest⟩, hpanicked⟩

/-- A request for a path as it was received. -/
def received (path rawPath : String) : Request where
  url := ⟨ascii path, ascii rawPath⟩
  query := none
  requestURI := ascii rawPath
  header := []

theorem encoded_rest_consistent :
    Consistent (received "/api/a/b" "/api/a%2Fb").url ∧
    (∀ req' ∈ (run [.stripPrefix [ascii "/api"] false] (received "/api/a/b" "/api/a%2Fb")).passed,
      Consistent req'.url) ∧
    (run [.stripPrefix [ascii "/api"] false] (received "/api/a/b" "/api/a%2Fb")).panicked = false := by
  have h : Consistent (received "/api/a/b" "/api/a%2Fb").url := .inr (by decide +kernel)
  refine ⟨h, (chain_consistent_iff [.stripPrefix [ascii "/api"] false] h).mpr ⟨?_, ?_⟩⟩
  · intro pre hpre
    obtain rfl : ascii "/api" = pre := by
      have hfound : strippedPrefix [ascii "/api"] (ascii "/api/a/b") = some (ascii "/api") := by
        decide +kernel
      exact some.inj (hfound.symm.trans hpre)
    exact .inr ⟨⟨ascii "/a%2Fb", by decide +kernel⟩, by decide +kernel, by decide +kernel⟩
  · intro req' _
    trivial

/-- A prefix that is encoded in the received path is removed from the decoded one only, and an
    encoded slash after a prefix becomes a second slash. -/
theorem stripped_inconsistent :
    (Consistent (received "/api/x" "/%61pi/x").url ∧
      ∃ req', (run [.stripPrefix [ascii "/api"] false] (received "/api/x" "/%61pi/x")).passed = [req'] ∧
        req'.url = ⟨ascii "/x", ascii "/%61pi/x"⟩ ∧ ¬ Consistent req'.url) ∧
    (Consistent (received "/api/x" "/api%2Fx").url ∧
      ∃ req', (run [.stripPrefix [ascii "/api"] false] (received "/api/x" "/api%2Fx")).passed = [req'] ∧
        req'.url = ⟨ascii "/x", ascii "/%2Fx"⟩ ∧ ¬ Consistent req'.url) := by
  refine ⟨⟨.inr (by decide +kernel), _, rfl, by decide +kernel, ?_⟩,
    .inr (by decide +kernel), _, rfl, by decide +kernel, ?_⟩
  all_goals rintro (h | h) <;> exact absurd h (by decide +kernel)

end Ingress.PathRewrite
