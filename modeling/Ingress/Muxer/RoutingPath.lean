import Ingress.Muxer.Http

/-! # Routing Paths

    The path that the matchers of the muxer see, of a request that the entry point has
    normalised and, when that is configured, sanitised.

    * `decodeUnlessReserved`: what the routing path has for each piece of the escaped path.
    * `Equivalent`: the paths that RFC 3986 does not distinguish.
    * `routing_path`: the routing path is the escaped path with the encoded characters decoded
      that are not reserved; it has the same elements; and equivalent paths have the same one.
    * `normalForm_iff`: when what the entry point makes of the paths is a normal form. -/

open List Percent Ingress.RequestPath

namespace Ingress.HttpMuxer

variable {R : Type} {p : Piece} {ps qs : List Piece}

/-! ## Reserved characters -/

/-- The reserved characters of RFC 3986, section 2.2. -/
def genDelims : Bytes :=
  ascii ":/?#[]@"

def subDelims : Bytes :=
  ascii "!$&'()*+,;="

/-- The piece, decoded unless it is a reserved character or a `%`. -/
def decodeUnlessReserved : Piece → Piece
  | .plain b h => .plain b h
  | .encoded hi lo hhi hlo =>
    if h : decode hi lo ∈ genDelims ++ subDelims ∨ decode hi lo = percent then .encoded hi lo hhi hlo
    else .plain (decode hi lo) fun heq => h (.inr heq)

theorem value_decodeUnlessReserved (p : Piece) : (decodeUnlessReserved p).value = p.value := by
  cases p with
  | plain b h => rfl
  | encoded hi lo hhi hlo =>
    rw [decodeUnlessReserved]
    split <;> rfl

open Piece

/-- No piece becomes a slash, and slashes stay. -/
theorem decodeUnlessReserved_slash (p : Piece) :
    (decodeUnlessReserved p).bytes = [slash] ↔ p.bytes = [slash] := by
  cases p with
  | plain b h => rfl
  | encoded hi lo hhi hlo =>
    rw [decodeUnlessReserved]
    split
    · rfl
    · next hfree =>
      have hslash : slash ∈ genDelims ++ subDelims := by decide
      refine iff_of_false (fun heq => hfree (.inl ?_)) (by simp [bytes])
      rw [show decode hi lo = slash from (cons.inj heq).1]
      exact hslash

/-! ## Normal pieces -/

/-- A piece as it stands in an escaped path after normalisation: no byte that must be encoded, and
    the digits of encoded ones in upper case. -/
structure Normal (p : Piece) : Prop where
  valid : validPiece p = true
  upper : p.elim (fun _ => True) fun hi lo => [percent, hi, lo] = encode (decode hi lo)

theorem normal_of {should : UInt8 → Bool} (hpct : should percent = true) {b : UInt8}
    (hval : validPiece (of should hpct b) = true) : Normal (of should hpct b) := by
  refine ⟨hval, ?_⟩
  unfold of
  split
  · show encode b = encode (decode (upperhex (b >>> 4)) (upperhex (b &&& 15)))
    rw [decode_upperhex]
  · trivial

theorem normal_normalizePiece (hval : validPiece p = true) : Normal (normalizePiece p) := by
  have hval' := (validPiece_normalizePiece p).trans hval
  cases p with
  | plain b h => exact ⟨hval', trivial⟩
  | encoded hi lo hhi hlo => exact normal_of reserved_percent hval'

theorem normal_seenPieces : ∀ p ∈ seenPieces ps, Normal p := by
  unfold seenPieces
  split
  · next hval =>
    intro p hp
    obtain ⟨q, hq, rfl⟩ := mem_map.mp hp
    exact normal_normalizePiece (all_eq_true.mp hval q hq)
  · intro p hp
    obtain ⟨q, -, rfl⟩ := mem_map.mp hp
    exact normal_of shouldEscape_percent (validPiece_default q.value)

/-- `*`, as a piece. -/
def starPiece : Piece :=
  .plain (chr '*') (by decide)

theorem normal_star : ∀ p ∈ [starPiece], Normal p := by
  intro p hp
  rw [mem_singleton.mp hp]
  exact ⟨by decide, trivial⟩

/-! ## The loop -/

theorem contains_reserved {hi lo : UInt8} (hupper : [percent, hi, lo] = encode (decode hi lo)) :
    reservedCharacters.contains [percent, hi, lo] = true ↔
      decode hi lo ∈ genDelims ++ subDelims ∨ decode hi lo = percent := by
  have hall : ascii ":/?#[]@!$&'()*+,;=%" = genDelims ++ subDelims ++ [percent] := by decide
  rw [contains_iff_mem, reservedCharacters, hall, hupper,
    mem_map_of_injective (fun _ _ => encode_injective), mem_append, mem_singleton]

theorem decodeTriple_eq {hi lo : UInt8} (hhi : ishex hi = true) (hlo : ishex lo = true)
    (hupper : [percent, hi, lo] = encode (decode hi lo)) :
    decodeTriple hi lo = .ok (decodeUnlessReserved (.encoded hi lo hhi hlo)).bytes := by
  have hdecode : unescape [percent, hi, lo] = some [decode hi lo] :=
    unescape_write [.encoded hi lo hhi hlo]
  by_cases hrsv : decode hi lo ∈ genDelims ++ subDelims ∨ decode hi lo = percent
  · rw [decodeUnlessReserved, dif_pos hrsv]
    exact if_pos ((contains_reserved hupper).mpr hrsv)
  · have hnot := mt (contains_reserved hupper).mp hrsv
    rw [decodeUnlessReserved, dif_neg hrsv]
    simp only [decodeTriple, hnot, hdecode]
    rfl

/-- The loop of `withRoutingPath` works piece by piece. -/
theorem decodeRoutingPath_normal (h : ∀ p ∈ ps, Normal p) :
    decodeRoutingPath (write ps) = .ok (write (ps.map decodeUnlessReserved)) := by
  induction ps with
  | nil => rfl
  | cons p ps ih =>
    have hp := h p (.head _)
    have hps := ih fun q hq => h q (.tail _ hq)
    cases p with
    | plain b hb =>
      have hrune : runeBytes b = [b] := if_pos (lt_of_validByte b hp.valid)
      rw [write_cons, bytes, singleton_append, decodeRoutingPath_plain hb, hps, hrune]
      rfl
    | encoded hi lo hhi hlo =>
      simp [bytes, decodeRoutingPath, decodeTriple_eq hhi hlo hp.upper, hps, Except.bind,
        Except.map]

/-! ## Elements -/

/-- A change of pieces that neither makes nor removes slashes keeps the elements. -/
theorem elements_map {f : Piece → Piece} (hf : ∀ p, (f p).bytes = [slash] ↔ p.bytes = [slash])
    (ps : List Piece) : elements (ps.map f) = (elements ps).map (map f) := by
  induction ps with
  | nil => rfl
  | cons p ps ih =>
    rw [map_cons, elements_cons, elements_cons, ih]
    by_cases hslash : p.bytes = [slash]
    · rw [if_pos hslash, if_pos ((hf p).mpr hslash)]
      rfl
    · rw [if_neg hslash, if_neg (mt (hf p).mp hslash)]
      cases elements ps <;> rfl

/-- Two texts that are decoded to the same one. -/
def SameDecoded (s t : Bytes) : Prop :=
  ∃ v, unescape s = some v ∧ unescape t = some v

theorem sameDecoded_elements (ps : List Piece) :
    List.Forall₂ SameDecoded ((write (ps.map decodeUnlessReserved)).splitOn slash)
      ((write ps).splitOn slash) := by
  rw [splitOn_write, splitOn_write, elements_map decodeUnlessReserved_slash, map_map,
    forall₂_map_left_iff, forall₂_map_right_iff, forall₂_same]
  intro q _
  refine ⟨q.map value, ?_, unescape_write q⟩
  show unescape (write (q.map decodeUnlessReserved)) = _
  rw [unescape_write, map_map]
  exact congrArg some (map_congr_left fun p _ => value_decodeUnlessReserved p)

/-! ## After the entry point -/

/-- The URL that the muxer sees, when sanitisation is configured and when it is not. -/
def sanitized (sanitize : Bool) (u : URL) : URL :=
  if sanitize then sanitizePath u else u

/-- A normalised URL has an escaped path of normal pieces. -/
theorem normal_of_normalizePath {u : URL} (hset : setPath (write ps) = some u) :
    ∃ v qs, normalizePath u = .next v ∧ v.escapedPath = write qs ∧ ∀ p ∈ qs, Normal p := by
  obtain ⟨v, hnormal, hseen | ⟨-, hstar⟩⟩ := normalizePath_cases hset
  · exact ⟨v, seenPieces ps, hnormal, hseen, normal_seenPieces⟩
  · exact ⟨v, [starPiece], hnormal, hstar, normal_star⟩

/-- `JoinPath` keeps pieces or drops them. -/
theorem joinPath_normal {u : URL} (he : u.escapedPath = write ps) (h : ∀ p ∈ ps, Normal p) :
    ∃ qs, u.joinPath.escapedPath = write qs ∧ ∀ p ∈ qs, Normal p := by
  obtain ⟨Q, pre, after, hQ, hsub, hslash, hjoin⟩ := joinPath_pieces ps
  have hnormal : ∀ p ∈ pre ++ [slashPiece].intercalate Q ++ after, Normal p := by
    intro p hp
    by_cases heq : p = slashPiece
    · rw [heq]
      exact ⟨by decide, trivial⟩
    · simp only [mem_append, mem_intercalate_iff heq] at hp
      rcases hp with (hp | ⟨q, hq, hpq⟩) | hp
      · exact absurd (hslash p (mem_append_left _ hp)) heq
      · exact h p (hsub q hq hpq)
      · exact absurd (hslash p (mem_append_right _ hp)) heq
  rcases escapedPath_setPath (hjoin u he) (all_eq_true.mpr fun p hp => (hnormal p hp).valid)
    with hpath | ⟨-, hstar⟩
  · exact ⟨_, hpath, hnormal⟩
  · exact ⟨[starPiece], hstar, normal_star⟩

theorem sanitized_normal (sanitize : Bool) {u : URL} (he : u.escapedPath = write ps)
    (h : ∀ p ∈ ps, Normal p) :
    ∃ qs, (sanitized sanitize u).escapedPath = write qs ∧ ∀ p ∈ qs, Normal p := by
  match sanitize with
  | true => exact joinPath_normal he h
  | false => exact ⟨ps, he, h⟩

/-- Sanitisation reads nothing but the escaped path. -/
theorem sanitized_congr (sanitize : Bool) {u v : URL} (h : u.escapedPath = v.escapedPath) :
    (sanitized sanitize u).escapedPath = (sanitized sanitize v).escapedPath := by
  match sanitize with
  | true =>
    obtain ⟨ps, hps⟩ := escapedPath_write u
    obtain ⟨Q, pre, after, -, -, -, hjoin⟩ := joinPath_pieces ps
    have hu := hjoin u hps
    rw [hjoin v (h ▸ hps), Option.some.injEq] at hu
    exact congrArg URL.escapedPath hu.symm
  | false => exact h

/-! ## Equivalent paths -/

/-- The piece is an encoded character. -/
def isEncoded : Piece → Bool :=
  Piece.elim (fun _ => false) fun _ _ => true

/-- Two pieces for one character: either both are encoded or none is, but for an unreserved
    character. -/
@[mk_iff] structure Similar (p q : Piece) : Prop where
  value : p.value = q.value
  form : isEncoded p = isEncoded q ∨ p.value ∈ unreserved

/-- Two paths that differ only in the letter case of hexadecimal digits and in the encoding of
    unreserved characters. -/
def Equivalent (p q : Bytes) : Prop :=
  ∃ ps qs, p = write ps ∧ q = write qs ∧ List.Forall₂ Similar ps qs

/-- The path of a request target: an absolute path, a `*`, or nothing. -/
def IsTarget (p : Bytes) : Prop :=
  p = [] ∨ p = ascii "*" ∨ p.head? = some slash

/-- Similar pieces are those with the same normal form. -/
theorem similar_iff_normalize {q : Piece} : Similar p q ↔ normalizePiece p = normalizePiece q := by
  have hmixed : ∀ {b : UInt8} (hb : b ≠ percent) (d : UInt8),
      .plain b hb = of reserved reserved_percent d ↔ b = d ∧ b ∈ unreserved := by
    intro b hb d
    by_cases hmem : d ∈ unreserved <;> simp [of, reserved, hmem] <;> exact fun h => h ▸ hmem
  rw [similar_iff]
  cases p with
  | plain b hb =>
    cases q with
    | plain b' hb' => simp [isEncoded, elim, value, normalizePiece]
    | encoded hi lo hhi hlo => simp [isEncoded, elim, value, normalizePiece, hmixed]
  | encoded hi lo hhi hlo =>
    cases q with
    | plain b hb =>
      rw [eq_comm (b := normalizePiece _)]
      simp only [isEncoded, elim, value, normalizePiece, hmixed, reduceCtorEq, false_or]
      exact ⟨fun h => ⟨h.1.symm, h.1 ▸ h.2⟩, fun h => ⟨h.1.symm, h.1 ▸ h.2⟩⟩
    | encoded hi' lo' hhi' hlo' =>
      simp only [isEncoded, elim, value, normalizePiece, true_or, and_true]
      exact ⟨congrArg _, fun h => by simpa using congrArg value h⟩

theorem forall₂_similar_iff :
    List.Forall₂ Similar ps qs ↔ ps.map normalizePiece = qs.map normalizePiece := by
  rw [← forall₂_eq_eq_eq, forall₂_map_left_iff, forall₂_map_right_iff]
  simp only [← similar_iff_normalize]

theorem value_similar (h : List.Forall₂ Similar ps qs) : ps.map value = qs.map value := by
  have hvals : ∀ rs : List Piece, (rs.map normalizePiece).map value = rs.map value := by simp
  rw [← hvals, forall₂_similar_iff.mp h, hvals]

theorem seenPieces_similar (h : List.Forall₂ Similar ps qs) : seenPieces ps = seenPieces qs := by
  have hnormal := forall₂_similar_iff.mp h
  have hval : ∀ rs : List Piece, (rs.map normalizePiece).all validPiece = rs.all validPiece := by
    simp [all_map, Function.comp_def]
  have hdef := congrArg (map (of shouldEscape shouldEscape_percent)) (value_similar h)
  rw [map_map, map_map] at hdef
  rw [seenPieces, seenPieces, ← hval, hnormal, hval]
  exact congrArg _ hdef

/-- The only request target for a path `*` is the path itself. -/
theorem eq_star_of_target (htgt : IsTarget (write ps)) (h : ps.map value = ascii "*") :
    ps = [starPiece] := by
  obtain ⟨p, rfl, hp⟩ := map_eq_singleton_iff.mp (h.trans (rfl : ascii "*" = [chr '*']))
  cases p with
  | plain b hb =>
    obtain rfl : b = chr '*' := hp
    rfl
  | encoded hi lo hhi hlo =>
    have hslash : percent ≠ slash := by decide
    rcases htgt with hnil | hstar | hhead
    · cases hnil
    · simp [bytes, ascii] at hstar
    · exact absurd (Option.some.inj hhead) hslash

theorem eq_star_of_similar {q : Piece} (h : Similar starPiece q) : q = starPiece := by
  have hstar : chr '*' ∉ unreserved := by
    decide
  rcases h.form with hform | hmem
  · cases q with
    | plain b hb =>
      obtain rfl : chr '*' = b := h.value
      rfl
    | encoded hi lo hhi hlo => cases hform
  · exact absurd hmem hstar

/-- Equivalent request targets have the same escaped path after normalisation. -/
theorem escapedPath_similar (htgt : IsTarget (write ps)) (h : List.Forall₂ Similar ps qs)
    {u u' v v' : URL} (hset : setPath (write ps) = some u) (hset' : setPath (write qs) = some u')
    (hv : normalizePath u = .next v) (hv' : normalizePath u' = .next v') :
    v.escapedPath = v'.escapedPath := by
  have hvals := value_similar h
  by_cases hstar : ps.map value = ascii "*"
  · -- both are the path itself
    obtain rfl := eq_star_of_target htgt hstar
    obtain ⟨q, rest, hq, hrest, rfl⟩ := forall₂_cons_left_iff.mp h
    obtain rfl := forall₂_nil_left_iff.mp hrest
    rw [eq_star_of_similar hq, hset, Option.some.injEq] at hset'
    rw [← hset', hv, Answer.next.injEq] at hv'
    rw [hv']
  · obtain ⟨w, hw, hseen⟩ := normalizePath_seen hset hstar
    obtain ⟨w', hw', hseen'⟩ := normalizePath_seen hset' (hvals ▸ hstar)
    rw [hv, Answer.next.injEq] at hw
    rw [hv', Answer.next.injEq] at hw'
    rw [hw, hw', hseen, hseen', seenPieces_similar h]

/-! ## The routing path -/

theorem withRoutingPath_of {req : Request R} {path : Bytes}
    (h : decodeRoutingPath req.url.escapedPath = .ok path) :
    withRoutingPath req = .ok { req with routingPath := some path } := by
  rw [withRoutingPath, h]
  rfl

/-- **The routing path** of a request with the path `p`, after the entry point: the escaped path
    with the encoded characters decoded that are neither reserved nor a `%`.  It has the elements
    of the escaped path, and is the same for all paths that are equivalent to `p`. -/
theorem routing_path (sanitize : Bool) {p : Bytes} {req : Request R}
    (hset : setPath p = some req.url) :
    ∃ v ps, normalizePath req.url = .next v ∧ (sanitized sanitize v).escapedPath = write ps ∧
      withRoutingPath { req with url := sanitized sanitize v } = .ok
        { req with
          url := sanitized sanitize v
          routingPath := some (write (ps.map decodeUnlessReserved)) } ∧
      List.Forall₂ SameDecoded ((write (ps.map decodeUnlessReserved)).splitOn slash)
        ((sanitized sanitize v).escapedPath.splitOn slash) ∧
      (IsTarget p → ∀ q, Equivalent p q → ∃ u' v', setPath q = some u' ∧
        normalizePath u' = .next v' ∧
        withRoutingPath { req with url := sanitized sanitize v' } = .ok
          { req with
            url := sanitized sanitize v'
            routingPath := some (write (ps.map decodeUnlessReserved)) }) := by
  obtain ⟨path, hpath, -⟩ := Option.map_eq_some_iff.mp hset
  obtain ⟨received, rfl⟩ := exists_write hpath
  obtain ⟨v, ps₀, hv, hescaped, hnormal⟩ := normal_of_normalizePath hset
  obtain ⟨ps, hps, hnormal⟩ := sanitized_normal sanitize hescaped hnormal
  have hdecode := decodeRoutingPath_normal hnormal
  refine ⟨v, ps, hv, hps, withRoutingPath_of ?_, ?_, ?_⟩
  · show decodeRoutingPath (sanitized sanitize v).escapedPath = _
    rw [hps, hdecode]
  · rw [hps]
    exact sameDecoded_elements ps
  · rintro htgt q ⟨rs, qs, hrecv, rfl, hsimilar⟩
    obtain rfl := write_injective hrecv
    have hset' := setPath_write qs
    obtain ⟨v', _, hv', -, -⟩ := normal_of_normalizePath hset'
    refine ⟨_, v', hset', hv', withRoutingPath_of ?_⟩
    have hsame := escapedPath_similar htgt hsimilar hset hset' hv hv'
    show decodeRoutingPath (sanitized sanitize v').escapedPath = _
    rw [← sanitized_congr sanitize hsame, hps, hdecode]

/-- A request for `/a%2fb`. -/
def encodedSlash : Request Unit where
  url := ⟨ascii "/a/b", ascii "/a%2fb"⟩
  routingPath := none
  rest := ()

theorem equivalent_encodedSlash : Equivalent (ascii "/a%2fb") (ascii "/%61%2Fb") := by
  let slash' : Piece := .encoded (chr '2') (chr 'f') (by decide) (by decide)
  let slash'' : Piece := .encoded (chr '2') (chr 'F') (by decide) (by decide)
  let a : Piece := .plain (chr 'a') (by decide)
  let a' : Piece := .encoded (chr '6') (chr '1') (by decide) (by decide)
  let b : Piece := .plain (chr 'b') (by decide)
  refine ⟨[slashPiece, a, slash', b], [slashPiece, a', slash'', b], by decide, by decide, ?_⟩
  refine .cons ⟨rfl, .inl rfl⟩ (.cons ⟨by decide, .inr ?_⟩ (.cons ⟨by decide, .inl rfl⟩
    (.cons ⟨rfl, .inl rfl⟩ .nil)))
  decide

theorem routing_path_encodedSlash : setPath (ascii "/a%2fb") = some encodedSlash.url ∧
    ∃ v path, normalizePath encodedSlash.url = .next v ∧
      withRoutingPath { encodedSlash with url := v } = .ok
        { encodedSlash with url := v, routingPath := some path } ∧
      ∃ u' v', setPath (ascii "/%61%2Fb") = some u' ∧ normalizePath u' = .next v' ∧
        withRoutingPath { encodedSlash with url := v' } = .ok
          { encodedSlash with url := v', routingPath := some path } := by
  have hset : setPath (ascii "/a%2fb") = some encodedSlash.url := by decide +kernel
  obtain ⟨v, ps, hv, -, hpath, -, hequivalent⟩ := routing_path false hset
  exact ⟨hset, v, _, hv, hpath, hequivalent (.inr (.inr (by decide))) _ equivalent_encodedSlash⟩

/-! ## The normal form -/

/-- `u` is handed on as `v`, whose raw path stands for the path of `u`, has upper-case digits and
    no encoding of an unreserved character, and is left as it is by another normalisation. -/
structure NormalForm (u v : URL) : Prop where
  next : normalizePath u = .next v
  path : v.path = u.path ∧ unescape v.rawPath = some u.path
  upper : ∀ hi lo, [percent, hi, lo] <:+: v.rawPath →
    toUpper hi = hi ∧ toUpper lo = lo ∧ decode hi lo ∉ unreserved
  again : normalizePath v = .next v

theorem upper_normalizePiece {hi lo : UInt8} {hhi : ishex hi = true} {hlo : ishex lo = true}
    (h : normalizePiece p = .encoded hi lo hhi hlo) :
    toUpper hi = hi ∧ toUpper lo = lo ∧ decode hi lo ∉ unreserved := by
  have hupper : ∀ b : UInt8, toUpper (upperhex (b >>> 4)) = upperhex (b >>> 4) ∧
      toUpper (upperhex (b &&& 15)) = upperhex (b &&& 15) := forall_byte (by decide +kernel)
  cases p with
  | plain b hb => cases h
  | encoded hi' lo' hhi' hlo' =>
    rw [normalizePiece, of] at h
    split at h
    · next hrsv =>
      cases h
      rw [decode_upperhex]
      exact ⟨(hupper _).1, (hupper _).2, of_decide_eq_true hrsv⟩
    · cases h

theorem normalizePiece_idem (p : Piece) : normalizePiece (normalizePiece p) = normalizePiece p := by
  cases p with
  | plain b h => rfl
  | encoded hi lo hhi hlo => exact normalizePiece_of reserved_percent (by simp [reserved]) _

theorem asciiPiece_normalizePiece (p : Piece) : asciiPiece (normalizePiece p) = asciiPiece p :=
  elim_normalizePiece (fun b hb => decide_eq_true
    (lt_of_validByte b (validByte_of_unreserved b hb).1)) p

theorem normalForm_of_ascii (hne : write ps ≠ []) (h : ps.all asciiPiece = true) :
    NormalForm ⟨ps.map value, write ps⟩ ⟨ps.map value, write (ps.map normalizePiece)⟩ where
  next := normalizePath_of_raw hne (normalizedRawPath_ascii h)
  path := by simp [unescape_write]
  upper := by
    intro hi lo hinfix
    obtain ⟨hhi, hlo, hmem⟩ := infix_write_iff.mp hinfix
    obtain ⟨p, -, hp⟩ := mem_map.mp hmem
    exact upper_normalizePiece hp
  again := by
    have hascii : (ps.map normalizePiece).all asciiPiece = true := by
      simpa [all_map, Function.comp_def, asciiPiece_normalizePiece] using h
    have hne' : write (ps.map normalizePiece) ≠ [] := by
      intro hnil
      obtain rfl := map_eq_nil_iff.mp (write_injective (hnil : _ = write []))
      exact hne rfl
    refine (normalizePath_of_raw hne' (normalizedRawPath_ascii hascii)).trans ?_
    simp [Function.comp_def, normalizePiece_idem]

/-- A plain byte that is not ASCII is written as two. -/
theorem length_normalized (ps : List Piece) :
    let raw := (ps.map (elim runeBytes normalizeTriple)).flatten
    raw.length = ps.length + ps.countP (fun p => !asciiPiece p) + 2 * raw.count percent := by
  induction ps with
  | nil => rfl
  | cons p ps ih =>
    have hp : (p.elim runeBytes normalizeTriple).length =
        1 + (if !asciiPiece p then 1 else 0) + 2 * (p.elim runeBytes normalizeTriple).count percent := by
      by_cases hascii : asciiPiece p = true
      · rw [bytes_normalizePiece hascii, length_bytes, hascii]
        rfl
      · cases p with
        | encoded hi lo hhi hlo => exact absurd rfl hascii
        | plain b h =>
          have hrune : ∀ b : UInt8, [(b >>> 6) ||| 192, (b &&& 63) ||| 128].count percent = 0 :=
            forall_byte (by decide +kernel)
          have hlarge : ¬ b < 128 := mt decide_eq_true hascii
          simp [elim, runeBytes, asciiPiece, hlarge, hrune]
    simp only [map_cons, flatten_cons, length_append, count_append, length_cons, countP_cons] at ih ⊢
    omega

theorem NormalForm.ascii {v : URL} (hne : write ps ≠ [])
    (h : NormalForm ⟨ps.map value, write ps⟩ v) : ps.all asciiPiece = true := by
  have hnext := (normalizePath_of_raw hne (normalizedRawPath_write ps)).symm.trans h.next
  obtain rfl := Answer.next.inj hnext
  have hlen := (length_normalized ps).symm.trans (length_of_unescape h.path.2)
  rw [length_map] at hlen
  have hnone : ps.countP (fun p => !asciiPiece p) = 0 := by omega
  simpa using countP_eq_zero.mp hnone

/-- **The normal form.**  The raw paths that `normalizePath` hands on are normal forms, the same
    for exactly the paths that are equivalent, if and only if no byte received is outside of
    ASCII. -/
theorem normalForm_iff {u u' : URL} (hne : u.rawPath ≠ []) (hpath : unescape u.rawPath = some u.path)
    (hne' : u'.rawPath ≠ []) (hpath' : unescape u'.rawPath = some u'.path) :
    (∃ v v', NormalForm u v ∧ NormalForm u' v' ∧
      (v.rawPath = v'.rawPath ↔ Equivalent u.rawPath u'.rawPath)) ↔
      ∀ b ∈ u.rawPath ++ u'.rawPath, b < 128 := by
  obtain ⟨path, raw⟩ := u
  obtain ⟨path', raw'⟩ := u'
  obtain ⟨ps, rfl, rfl⟩ := exists_pieces hpath
  obtain ⟨qs, rfl, rfl⟩ := exists_pieces hpath'
  have hascii : ∀ rs, rs.all asciiPiece = true ↔ ∀ b ∈ write rs, b < 128 := by
    intro rs
    rw [asciiPiece, ← all_write (by decide) (forall_byte (by decide +kernel))]
    simp
  simp only [mem_append, or_imp, forall_and, ← hascii]
  constructor
  · rintro ⟨v, v', hv, hv', -⟩
    exact ⟨hv.ascii hne, hv'.ascii hne'⟩
  · rintro ⟨h, h'⟩
    refine ⟨_, _, normalForm_of_ascii hne h, normalForm_of_ascii hne' h', ?_, ?_⟩
    · exact fun heq => ⟨ps, qs, rfl, rfl, forall₂_similar_iff.mpr (write_injective heq)⟩
    · rintro ⟨ps', qs', hps', hqs', hsimilar⟩
      obtain rfl := write_injective hps'
      obtain rfl := write_injective hqs'
      exact congrArg write (forall₂_similar_iff.mp hsimilar)

theorem normalForm_encodedSlash : ∃ v v', NormalForm ⟨ascii "/a/b", ascii "/a%2fb"⟩ v ∧
    NormalForm ⟨ascii "/a/b", ascii "/%61%2Fb"⟩ v' ∧ v.rawPath = v'.rawPath := by
  obtain ⟨v, v', hv, hv', hsame⟩ := (@normalForm_iff ⟨ascii "/a/b", ascii "/a%2fb"⟩
    ⟨ascii "/a/b", ascii "/%61%2Fb"⟩ (by decide) (by decide +kernel) (by decide)
    (by decide +kernel)).mpr (by decide +kernel)
  exact ⟨v, v', hv, hv', hsame.mpr equivalent_encodedSlash⟩

/-- A raw path with the byte `E9` is handed on with `C3 A9` in its place. -/
theorem normalizePath_latin : unescape [slash, 0xE9] = some [slash, 0xE9] ∧
    normalizePath ⟨[slash, 0xE9], [slash, 0xE9]⟩ = .next ⟨[slash, 0xE9], [slash, 0xC3, 0xA9]⟩ ∧
    unescape [slash, 0xC3, 0xA9] ≠ some [slash, 0xE9] := by
  decide +kernel

end Ingress.HttpMuxer
