import Ingress.Framework.Percent

/-! # Request Paths

    The path of a request is normalised and, when that is configured, sanitised by
    the entry point (`pkg/server`); a router may then deny encoded characters in it
    (`pkg/server/router`).

    A URL keeps its path decoded, and as it was received (`RawPath`) when that is
    not the default encoding of the decoded path.  `EscapedPath` returns the
    received form only when it has no byte that must be encoded.

    * `handle`: the code, from the URL to the answer.
    * `seen`: the path that the check, or the cleaning before it, sees.
    * `denied_iff`: when a path with a denied character is rejected. -/

open List Percent Function

namespace Ingress.RequestPath

/-! ## URLs (`net/url`, `path`) -/

/-- The bytes of an ASCII text. -/
def ascii (s : String) : Bytes :=
  s.toList.map chr

/-- The bytes of a letter or a digit. -/
def isAlphanum (c : UInt8) : Bool :=
  (chr 'a' ≤ c && c ≤ chr 'z') || (chr 'A' ≤ c && c ≤ chr 'Z') || (chr '0' ≤ c && c ≤ chr '9')

/-- `shouldEscape`, of a path. -/
def shouldEscape (c : UInt8) : Bool :=
  !(isAlphanum c || c ∈ ascii "-_.~" || c ∈ ascii "$&+,/:;=@")

/-- A byte that may stand in a path as it is, or begins an encoded one. -/
def validByte (c : UInt8) : Bool :=
  c ∈ ascii "!$&'()*+,;=:@[]%" || !shouldEscape c

/-- `validEncoded`, of a path. -/
def validEncoded (s : Bytes) : Bool :=
  s.all validByte

/-- The path of a URL, decoded and as it was received. -/
structure URL where
  path : Bytes
  rawPath : Bytes
  deriving DecidableEq, Repr

def setPath (p : Bytes) : Option URL :=
  (unescape p).map fun path =>
    { path, rawPath := if escape shouldEscape path = p then [] else p }

def URL.escapedPath (u : URL) : Bytes :=
  if u.rawPath ≠ [] ∧ validEncoded u.rawPath = true ∧ unescape u.rawPath = some u.path then
    u.rawPath
  else if u.path = ascii "*" then ascii "*"
  else escape shouldEscape u.path

/-- `/`. -/
def slash : UInt8 :=
  chr '/'

/-- One element of a path that is cleaned, `stack` being those that are kept so far. -/
def cleanStep (stack : List Bytes) (element : Bytes) : List Bytes :=
  if element = [] ∨ element = ascii "." then stack
  else if element = ascii ".." then stack.dropLast
  else stack ++ [element]

/-- The elements that `path.Clean` keeps of a rooted path. -/
def cleanElements (p : Bytes) : List Bytes :=
  (p.splitOn slash).foldl cleanStep []

/-- `path.Clean`, of a rooted path. -/
def clean (p : Bytes) : Bytes :=
  slash :: [slash].intercalate (cleanElements p)

/-- `JoinPath`, without elements. -/
def URL.joinPath (u : URL) : URL :=
  let e := u.escapedPath
  let rooted := e.head? = some slash
  let elem := if rooted then e else slash :: e
  let p := if rooted then clean elem else (clean elem).tail
  -- at least one trailing slash is preserved
  let p := if elem.getLast? = some slash ∧ p.getLast? ≠ some slash then p ++ [slash] else p
  (setPath p).getD u

/-! ## The entry point -/

/-- The answer of a handler: a rejection, or the URL the next handler is called with. -/
inductive Answer where
  | badRequest
  | next (u : URL)
  deriving DecidableEq, Repr

/-- The unreserved characters. -/
def unreserved : Bytes :=
  ascii "ABCDEFGHIJKLMNOPQRSTUVWXYZabcdefghijklmnopqrstuvwxyz0123456789-._~"

/-- `unreservedCharacters`, by their encoded forms. -/
def unreservedCharacters : List (Bytes × UInt8) :=
  unreserved.map fun c => (encode c, c)

/-- `string(c)` of a byte: the UTF-8 encoding of the code point of that number. -/
def runeBytes (c : UInt8) : Bytes :=
  if c < 128 then [c] else [(c >>> 6) ||| 192, (c &&& 63) ||| 128]

/-- What is written for an encoded character. -/
def normalizeTriple (hi lo : UInt8) : Bytes :=
  let encodedCharacter := [percent, hi, lo].map toUpper
  match unreservedCharacters.lookup encodedCharacter with
  | some r => [r]
  | none => encodedCharacter

/-- The loop of `normalizePath`. -/
def normalizedRawPath (rawPath : Bytes) : Option Bytes :=
  (scan runeBytes normalizeTriple rawPath).map List.flatten

def normalizePath (u : URL) : Answer :=
  if u.rawPath = [] then .next u
  else
    match normalizedRawPath u.rawPath with
    | none => .badRequest
    | some raw => if raw = u.rawPath then .next u else .next { u with rawPath := raw }

def sanitizePath (u : URL) : URL :=
  u.joinPath

/-! ## The router -/

structure RouterDeniedEncodedPathCharacters where
  allowEncodedSlash : Bool
  allowEncodedBackSlash : Bool
  allowEncodedNullCharacter : Bool
  allowEncodedSemicolon : Bool
  allowEncodedPercent : Bool
  allowEncodedQuestionMark : Bool
  allowEncodedHash : Bool
  deriving DecidableEq, Repr

def RouterDeniedEncodedPathCharacters.map (r : RouterDeniedEncodedPathCharacters) : List Bytes :=
  (if r.allowEncodedSlash then [] else [ascii "%2F", ascii "%2f"]) ++
  (if r.allowEncodedBackSlash then [] else [ascii "%5C", ascii "%5c"]) ++
  (if r.allowEncodedNullCharacter then [] else [ascii "%00"]) ++
  (if r.allowEncodedSemicolon then [] else [ascii "%3B", ascii "%3b"]) ++
  (if r.allowEncodedPercent then [] else [ascii "%25"]) ++
  (if r.allowEncodedQuestionMark then [] else [ascii "%3F", ascii "%3f"]) ++
  (if r.allowEncodedHash then [] else [ascii "%23"])

/-- The loop of `denyEncodedPathCharacters`: whether it rejects.  A `%` without two
    bytes after it is rejected too. -/
def rejects (encodedCharacters : List Bytes) (escapedPath : Bytes) : Bool :=
  match scan (fun _ => false) (fun hi lo => decide ([percent, hi, lo] ∈ encodedCharacters))
    escapedPath with
  | none => true
  | some denied => denied.any id

def denyEncodedPathCharacters (encodedCharacters : List Bytes) (u : URL) : Answer :=
  if encodedCharacters = [] then .next u
  else if rejects encodedCharacters u.escapedPath then .badRequest
  else .next u

/-- From the entry point to the router. -/
def handle (sanitize : Bool) (encodedCharacters : List Bytes) (u : URL) : Answer :=
  match normalizePath u with
  | .badRequest => .badRequest
  | .next u => denyEncodedPathCharacters encodedCharacters (if sanitize then sanitizePath u else u)

/-! ## Bytes -/

theorem shouldEscape_percent : shouldEscape percent = true := by
  decide

theorem lt_of_validByte (b : UInt8) (h : validByte b = true) : b < 128 := by
  have hlisted : ∀ c ∈ ascii "!$&'()*+,;=:@[]%" ++ ascii "-_.~" ++ ascii "$&+,/:;=@", c < 128 :=
    forall_mem_of_all (by decide)
  have halphanum : isAlphanum b = true → b < 128 := by
    have hlast : chr 'z' < 128 ∧ chr 'Z' < 128 ∧ chr '9' < 128 := by decide
    simp only [isAlphanum, Bool.or_eq_true, Bool.and_eq_true, decide_eq_true_eq]
    rintro ((⟨-, hle⟩ | ⟨-, hle⟩) | ⟨-, hle⟩)
    · exact UInt8.lt_of_le_of_lt hle hlast.1
    · exact UInt8.lt_of_le_of_lt hle hlast.2.1
    · exact UInt8.lt_of_le_of_lt hle hlast.2.2
  simp only [validByte, shouldEscape, Bool.not_not, Bool.or_eq_true, decide_eq_true_eq] at h
  rcases h with hmem | (hmem | hmem) | hmem
  · exact hlisted b (mem_append_left _ (mem_append_left _ hmem))
  · exact halphanum hmem
  · exact hlisted b (mem_append_left _ (mem_append_right _ hmem))
  · exact hlisted b (mem_append_right _ hmem)

theorem validByte_of_not_shouldEscape {b : UInt8} (h : ¬ shouldEscape b = true) :
    validByte b = true := by
  simp [validByte, h]

theorem not_shouldEscape_of_unreserved {b : UInt8} (h : b ∈ unreserved) :
    ¬ shouldEscape b = true := by
  have hall : ∀ c ∈ unreserved, (isAlphanum c || c ∈ ascii "-_.~") = true := by
    exact forall_mem_of_all (by decide)
  simp [shouldEscape, hall b h]

theorem validByte_of_unreserved (b : UInt8) (h : b ∈ unreserved) :
    validByte b = true ∧ b ≠ percent := by
  refine ⟨validByte_of_not_shouldEscape (not_shouldEscape_of_unreserved h), fun heq => ?_⟩
  exact not_shouldEscape_of_unreserved h (heq ▸ shouldEscape_percent)

/-- The hexadecimal digits. -/
def hexDigits : Bytes :=
  ascii "0123456789abcdefABCDEF"

theorem mem_hexDigits : ∀ b, ishex b = true → b ∈ hexDigits ∧ validByte b = true ∧ b ≠ slash :=
  forall_byte (by decide +kernel)

variable {hi lo : UInt8}

/-- Two digits in upper case are those of the byte they stand for. -/
theorem toUpper_eq_encode (hhi : ishex hi = true) (hlo : ishex lo = true) :
    [percent, hi, lo].map toUpper = encode (decode hi lo) := by
  have hall : ∀ p ∈ hexDigits ×ˢ hexDigits,
      [percent, p.1, p.2].map toUpper = encode (decode p.1 p.2) :=
    forall_mem_of_all (by decide +kernel)
  exact hall (hi, lo) (mem_product.mpr ⟨(mem_hexDigits hi hhi).1, (mem_hexDigits lo hlo).1⟩)

theorem lookup_encode (l : Bytes) (b : UInt8) :
    (l.map fun c => (encode c, c)).lookup (encode b) = if b ∈ l then some b else none := by
  induction l with
  | nil => rfl
  | cons c l ih =>
    rw [map_cons, lookup_cons, ih]
    by_cases hbc : b = c
    · simp [hbc]
    · have hne : ¬ encode b = encode c := fun h => hbc (encode_injective h)
      simp [hbc, beq_eq_false_iff_ne.mpr hne]

theorem normalizeTriple_eq (hhi : ishex hi = true) (hlo : ishex lo = true) :
    normalizeTriple hi lo =
      if decode hi lo ∈ unreserved then [decode hi lo] else encode (decode hi lo) := by
  unfold normalizeTriple unreservedCharacters
  by_cases hmem : decode hi lo ∈ unreserved <;>
    simp [toUpper_eq_encode hhi hlo, lookup_encode, hmem]

/-! ## Denied characters -/

variable {r : RouterDeniedEncodedPathCharacters}

/-- All characters that can be denied. -/
def deniable : List Bytes :=
  RouterDeniedEncodedPathCharacters.map ⟨false, false, false, false, false, false, false⟩

variable {α : Type}

theorem mem_ite_nil {a : Bool} {x : α} {l : List α} :
    x ∈ (if a then [] else l) ↔ a = false ∧ x ∈ l := by
  cases a <;> simp

theorem mem_deniable {t : Bytes} (h : t ∈ r.map) : t ∈ deniable := by
  simp only [RouterDeniedEncodedPathCharacters.map, mem_append, mem_ite_nil] at h
  simp only [deniable, RouterDeniedEncodedPathCharacters.map, mem_append, mem_ite_nil, true_and]
  exact h.imp (Or.imp (Or.imp (Or.imp (Or.imp (Or.imp And.right And.right) And.right) And.right)
    And.right) And.right) And.right

/-- The letter case of the digits does not matter. -/
theorem mem_map_iff (hhi : ishex hi = true) (hlo : ishex lo = true) :
    [percent, hi, lo] ∈ r.map ↔ encode (decode hi lo) ∈ r.map := by
  -- A digit is one in upper case or one in lower case, and both forms are in the map.
  have hcase : ∀ d ∈ hexDigits, d ∈ [toUpper d, toUpper d + 32] := forall_mem_of_all (by decide)
  have hforms : ∀ part ∈ [[ascii "%2F", ascii "%2f"], [ascii "%5C", ascii "%5c"], [ascii "%00"],
      [ascii "%3B", ascii "%3b"], [ascii "%25"], [ascii "%3F", ascii "%3f"], [ascii "%23"]],
      ∀ t ∈ part, t.map toUpper ∈ part ∧
        (([t.getD 1 0, t.getD 1 0 + 32] ×ˢ [t.getD 2 0, t.getD 2 0 + 32]).all fun p =>
          decide (ishex p.1 = true → ishex p.2 = true → [percent, p.1, p.2] ∈ part)) = true := by
    decide
  have hdigits : ∀ part ∈ [[ascii "%2F", ascii "%2f"], [ascii "%5C", ascii "%5c"], [ascii "%00"],
      [ascii "%3B", ascii "%3b"], [ascii "%25"], [ascii "%3F", ascii "%3f"], [ascii "%23"]],
      ([percent, hi, lo] ∈ part ↔ [percent, hi, lo].map toUpper ∈ part) := by
    intro part hpart
    constructor
    · intro hmem
      exact (hforms part hpart _ hmem).1
    · intro hmem
      exact forall_mem_of_all (hforms part hpart _ hmem).2 (hi, lo) (mem_product.mpr
        ⟨hcase hi (mem_hexDigits hi hhi).1, hcase lo (mem_hexDigits lo hlo).1⟩) hhi hlo
  simp only [forall_mem_cons, not_mem_nil, false_implies, implies_true, and_true]
    at hdigits
  obtain ⟨h₁, h₂, h₃, h₄, h₅, h₆, h₇⟩ := hdigits
  simp only [← toUpper_eq_encode hhi hlo, RouterDeniedEncodedPathCharacters.map,
    mem_append, mem_ite_nil, h₁, h₂, h₃, h₄, h₅, h₆, h₇]

theorem not_unreserved_of_mem {b : UInt8} (h : encode b ∈ r.map) : b ∉ unreserved := by
  have hall : ∀ t ∈ deniable, decode (t.getD 1 0) (t.getD 2 0) ∉ unreserved := by
    decide
  have hnot := hall _ (mem_deniable h)
  rwa [show decode ((encode b).getD 1 0) ((encode b).getD 2 0) = b from decode_upperhex b] at hnot

/-- An encoded character of `D`, in any letter case, stands in the text. -/
def Contains (D : List Bytes) (s : Bytes) : Prop :=
  ∃ hi lo, [percent, toUpper hi, toUpper lo] ∈ D ∧ [percent, hi, lo] <:+: s

/-- The check of one piece. -/
def isDenied (D : List Bytes) : Piece → Bool :=
  Piece.elim (fun _ => false) fun hi lo => decide ([percent, hi, lo] ∈ D)

theorem rejects_write (D : List Bytes) (ps : List Piece) :
    rejects D (write ps) = ps.any (isDenied D) := by
  rw [rejects, scan_write]
  simp [isDenied, any_map]

variable {ps : List Piece}

theorem contains_write_iff : Contains r.map (write ps) ↔ ps.any (isDenied r.map) = true := by
  have hupper : ∀ {hi lo}, ishex hi = true → ishex lo = true →
      ([percent, toUpper hi, toUpper lo] ∈ r.map ↔ [percent, hi, lo] ∈ r.map) := by
    intro hi lo hhi hlo
    rw [mem_map_iff hhi hlo, ← toUpper_eq_encode hhi hlo]
    rfl
  rw [any_eq_true]
  constructor
  · rintro ⟨hi, lo, hmem, hinfix⟩
    obtain ⟨hhi, hlo, hpiece⟩ := infix_write_iff.mp hinfix
    exact ⟨_, hpiece, decide_eq_true ((hupper hhi hlo).mp hmem)⟩
  · rintro ⟨p, hpiece, hdenied⟩
    cases p with
    | plain b h => cases hdenied
    | encoded hi lo hhi hlo =>
      exact ⟨hi, lo, (hupper hhi hlo).mpr (of_decide_eq_true hdenied),
        infix_write_iff.mpr ⟨hhi, hlo, hpiece⟩⟩

open Piece

theorem isDenied_of (should : UInt8 → Bool) (hpct : should percent = true) (b : UInt8) :
    isDenied r.map (of should hpct b) = (should b && decide (encode b ∈ r.map)) := by
  unfold of
  split
  next h =>
    rw [h, Bool.true_and]
    exact decide_eq_decide.mpr .rfl
  next h => simp [h, isDenied, elim]

/-! ## What the check sees -/

/-- A byte that normalisation leaves encoded. -/
def reserved (b : UInt8) : Bool :=
  b ∉ unreserved

theorem reserved_percent : reserved percent = true := by
  decide

/-- A piece after normalisation. -/
def normalizePiece : Piece → Piece
  | .plain b h => .plain b h
  | .encoded hi lo _ _ => Piece.of reserved reserved_percent (decode hi lo)

/-- The piece has no byte that must be encoded. -/
def validPiece : Piece → Bool :=
  Piece.elim validByte fun _ _ => true

/-- The piece is written in ASCII. -/
def asciiPiece : Piece → Bool :=
  Piece.elim (fun b => decide (b < 128)) fun _ _ => true

theorem validEncoded_write (ps : List Piece) : validEncoded (write ps) = ps.all validPiece :=
  all_write (by decide) (fun b hb => (mem_hexDigits b hb).2.1) ps

@[simp] theorem value_normalizePiece (p : Piece) : (normalizePiece p).value = p.value := by
  cases p with
  | plain b h => rfl
  | encoded hi lo hhi hlo => exact value_of _ reserved_percent _

/-- Normalisation decodes nothing but unreserved characters. -/
theorem elim_normalizePiece {f : UInt8 → Bool} (hf : ∀ b ∈ unreserved, f b = true) (p : Piece) :
    (normalizePiece p).elim f (fun _ _ => true) = p.elim f fun _ _ => true := by
  cases p with
  | plain b h => rfl
  | encoded hi lo hhi hlo =>
    rw [normalizePiece, of]
    split
    next => rfl
    next h =>
      rw [reserved, decide_eq_true_eq, not_not] at h
      exact hf _ h

@[simp] theorem validPiece_normalizePiece (p : Piece) :
    validPiece (normalizePiece p) = validPiece p :=
  elim_normalizePiece (fun b hb => (validByte_of_unreserved b hb).1) p

/-- What the loop of `normalizePath` writes for one piece. -/
theorem bytes_normalizePiece {p : Piece} (h : asciiPiece p = true) :
    p.elim runeBytes normalizeTriple = (normalizePiece p).bytes := by
  cases p with
  | plain b hb => exact if_pos (of_decide_eq_true h)
  | encoded hi lo hhi hlo =>
    rw [elim, normalizeTriple_eq hhi hlo, normalizePiece, of]
    by_cases hmem : decode hi lo ∈ unreserved <;> simp [reserved, hmem, bytes, encode]

theorem validByte_normalized (p : Piece) :
    (p.elim runeBytes normalizeTriple).all validByte = validPiece p := by
  by_cases hascii : asciiPiece p = true
  · have hval := validEncoded_write [normalizePiece p]
    rw [bytes_normalizePiece hascii, ← validPiece_normalizePiece]
    simpa [validEncoded] using hval
  cases p with
  | encoded hi lo hhi hlo => exact absurd rfl hascii
  | plain b h =>
    -- Neither the byte nor the first byte of its encoding is ASCII.
    have hlarge : ¬ b < 128 := mt decide_eq_true hascii
    have hfirst : ∀ b : UInt8, ¬ ((b >>> 6) ||| 192) < 128 := forall_byte (by decide +kernel)
    have hrune : ¬ validByte ((b >>> 6) ||| 192) = true := mt (lt_of_validByte _) (hfirst b)
    have hbyte : ¬ validByte b = true := mt (lt_of_validByte b) hlarge
    simp [elim, runeBytes, validPiece, hlarge, hrune, hbyte]

theorem normalizedRawPath_write (ps : List Piece) : normalizedRawPath (write ps) =
    some (ps.map (elim runeBytes normalizeTriple)).flatten := by
  rw [normalizedRawPath, scan_write]
  rfl

theorem normalizedRawPath_ascii (h : ps.all asciiPiece = true) :
    normalizedRawPath (write ps) = some (write (ps.map normalizePiece)) := by
  rw [normalizedRawPath_write, write, flatMap_def, map_map]
  refine congrArg (fun l => some (flatten l)) (map_congr_left fun p hp => ?_)
  exact bytes_normalizePiece (all_eq_true.mp h p hp)

theorem normalizedRawPath_valid (h : ps.all validPiece = true) :
    normalizedRawPath (write ps) = some (write (ps.map normalizePiece)) := by
  refine normalizedRawPath_ascii (all_eq_true.mpr fun p hp => ?_)
  have hval := all_eq_true.mp h p hp
  cases p with
  | plain b hb => exact decide_eq_true (lt_of_validByte b hval)
  | encoded hi lo hhi hlo => rfl

@[simp] theorem isDenied_normalizePiece (p : Piece) :
    isDenied r.map (normalizePiece p) = isDenied r.map p := by
  cases p with
  | plain b h => rfl
  | encoded hi lo hhi hlo =>
    rw [normalizePiece, isDenied_of, reserved, isDenied, elim, ← Bool.decide_and,
      decide_eq_decide, mem_map_iff hhi hlo]
    exact ⟨And.right, fun h => ⟨not_unreserved_of_mem h, h⟩⟩

/-- The pieces of the path that the check, or the cleaning before it, sees: those
    received when none of them must be encoded, and otherwise the default encoding. -/
def seenPieces (ps : List Piece) : List Piece :=
  if ps.all validPiece then ps.map normalizePiece
  else ps.map fun p => Piece.of shouldEscape shouldEscape_percent p.value

theorem validPiece_default (b : UInt8) :
    validPiece (of shouldEscape shouldEscape_percent b) = true := by
  unfold of
  split
  next => rfl
  next h => exact validByte_of_not_shouldEscape h

theorem normalizePiece_of {should : UInt8 → Bool} (hpct : should percent = true)
    (h : ∀ b ∈ unreserved, ¬ should b = true) (b : UInt8) :
    normalizePiece (of should hpct b) = of should hpct b := by
  unfold of
  split
  next hshould =>
    have hmem : b ∉ unreserved := fun hmem => h b hmem hshould
    simp [normalizePiece, of, reserved, decode_upperhex, hmem]
  next => rfl

theorem validPiece_seenPieces (ps : List Piece) : (seenPieces ps).all validPiece = true := by
  unfold seenPieces
  split
  next h => simpa [all_map, comp_def] using h
  next => simp [all_map, comp_def, validPiece_default]

theorem value_seenPieces (ps : List Piece) : (seenPieces ps).map value = ps.map value := by
  unfold seenPieces
  split <;> simp [comp_def]

theorem setPath_write (ps : List Piece) : setPath (write ps) =
    some ⟨ps.map value,
      if escape shouldEscape (ps.map value) = write ps then [] else write ps⟩ := by
  rw [setPath, unescape_write]
  rfl

/-- The default encoding of what the pieces stand for. -/
theorem escape_value (ps : List Piece) : escape shouldEscape (ps.map value) =
    write (ps.map fun p => of shouldEscape shouldEscape_percent p.value) := by
  rw [escape_eq_write _ shouldEscape_percent, map_map]
  rfl

theorem seenPieces_default
    (h : escape shouldEscape (ps.map value) = write ps) : write (seenPieces ps) = write ps := by
  rw [escape_value] at h
  have hps := write_injective h
  have hval : ps.all validPiece = true := by
    rw [← hps]
    simp [all_map, comp_def, validPiece_default]
  rw [seenPieces, if_pos hval, ← hps, map_map]
  simp [comp_def, normalizePiece_of _ fun b => not_shouldEscape_of_unreserved]

/-- A received form that is valid is returned. -/
theorem escapedPath_raw (hne : ps ≠ []) (hval : ps.all validPiece = true) :
    URL.escapedPath ⟨ps.map value, write ps⟩ = write ps := by
  refine if_pos ⟨?_, ?_, unescape_write ps⟩
  · exact fun h => hne (write_injective (h : write ps = write []))
  · rwa [validEncoded_write]

variable {u : URL}

theorem escapedPath_default (hraw : u.rawPath = [] ∨ validEncoded u.rawPath = false) :
    u.escapedPath = if u.path = ascii "*" then ascii "*" else escape shouldEscape u.path := by
  unfold URL.escapedPath
  rw [if_neg (by rcases hraw with h | h <;> simp [h])]

theorem ne_nil_of_escape (h : ¬ escape shouldEscape (ps.map value) = write ps) : ps ≠ [] := by
  rintro rfl
  exact h rfl

theorem normalizePath_of_raw {raw : Bytes} (hne : u.rawPath ≠ [])
    (hraw : normalizedRawPath u.rawPath = some raw) :
    normalizePath u = .next { u with rawPath := raw } := by
  simp only [normalizePath, if_neg hne, hraw]
  split
  next h => rw [h]
  next => rfl

/-- After normalisation the path is `seenPieces`, or a `*` that stands alone. -/
theorem normalizePath_cases (hset : setPath (write ps) = some u) :
    ∃ u', normalizePath u = .next u' ∧ (u'.escapedPath = write (seenPieces ps) ∨
      ps.map value = ascii "*" ∧ u'.escapedPath = ascii "*") := by
  -- the default encoding, but for a path that is a star
  have hstar : ∀ {u' : URL} {s : Bytes}, u'.path = ps.map value →
      (u'.rawPath = [] ∨ validEncoded u'.rawPath = false) → escape shouldEscape u'.path = s →
      u'.escapedPath = s ∨ ps.map value = ascii "*" ∧ u'.escapedPath = ascii "*" := by
    intro u' s hpath hraw hs
    rw [escapedPath_default hraw]
    split
    · next h => exact .inr ⟨by rw [← hpath, h], rfl⟩
    · exact .inl hs
  rw [setPath_write, Option.some.injEq] at hset
  subst hset
  by_cases hdef : escape shouldEscape (ps.map value) = write ps
  · refine ⟨_, if_pos (if_pos hdef), hstar rfl (.inl (if_pos hdef)) ?_⟩
    rw [seenPieces_default hdef]
    exact hdef
  · have hne := ne_nil_of_escape hdef
    simp only [if_neg hdef]
    refine ⟨_, normalizePath_of_raw (fun h => hne (write_injective (h : write ps = write [])))
      (normalizedRawPath_write ps), ?_⟩
    by_cases hval : ps.all validPiece = true
    · have hraw := normalizedRawPath_valid hval
      rw [normalizedRawPath_write, Option.some.injEq] at hraw
      have hseen : seenPieces ps = ps.map normalizePiece := if_pos hval
      rw [hraw, ← value_seenPieces, ← hseen]
      exact .inl (escapedPath_raw (by simpa [hseen] using hne) (validPiece_seenPieces ps))
    · refine hstar rfl (.inr ?_) ?_
      · simpa [validEncoded, all_flatten, all_map, comp_def, validByte_normalized] using hval
      · rw [seenPieces, if_neg hval]
        exact escape_value ps

/-- After normalisation the path is `seenPieces`. -/
theorem normalizePath_seen (hset : setPath (write ps) = some u) (hpath : ps.map value ≠ ascii "*") :
    ∃ u', normalizePath u = .next u' ∧ u'.escapedPath = write (seenPieces ps) := by
  obtain ⟨u', hnormal, hseen | ⟨hstar, -⟩⟩ := normalizePath_cases hset
  · exact ⟨u', hnormal, hseen⟩
  · exact absurd hstar hpath

/-! ## Sanitised paths -/

theorem not_denied_star (h : ps.map value = ascii "*") : ps.any (isDenied r.map) = false := by
  have hstar : encode (chr '*') ∉ r.map := by
    have hnot : encode (chr '*') ∉ deniable := by decide
    exact fun hmem => hnot (mem_deniable hmem)
  obtain ⟨p, rfl, hp⟩ := map_eq_singleton_iff.mp (h.trans (rfl : ascii "*" = [chr '*']))
  cases p with
  | plain b hb => rfl
  | encoded hi lo hhi hlo =>
    have hmem : [percent, hi, lo] ∉ r.map := by
      rw [mem_map_iff hhi hlo, show decode hi lo = chr '*' from hp]
      exact hstar
    simp [isDenied, elim, hmem]

/-- A path that is set and then read. -/
theorem escapedPath_setPath (hset : setPath (write ps) = some u)
    (hval : ps.all validPiece = true) : u.escapedPath = write ps ∨
      ps.map value = ascii "*" ∧ u.escapedPath = ascii "*" := by
  rw [setPath_write, Option.some.injEq] at hset
  subst hset
  by_cases hdef : escape shouldEscape (ps.map value) = write ps
  · rw [if_pos hdef, escapedPath_default (.inl rfl)]
    by_cases hpath : ps.map value = ascii "*"
    · exact .inr ⟨hpath, if_pos hpath⟩
    · rw [if_neg hpath]
      exact .inl hdef
  · rw [if_neg hdef]
    exact .inl (escapedPath_raw (ne_nil_of_escape hdef) hval)

/-- The check of a path that is set and then read. -/
theorem rejects_setPath (hset : setPath (write ps) = some u) (hval : ps.all validPiece = true) :
    rejects r.map u.escapedPath = ps.any (isDenied r.map) := by
  rcases escapedPath_setPath hset hval with hpath | ⟨hstar, hpath⟩
  · rw [hpath, rejects_write]
  · rw [hpath, not_denied_star hstar]
    rfl

/-- `/`, as a piece. -/
def slashPiece : Piece :=
  .plain slash (by decide)

theorem splitOn_slash (s : Bytes) : (slash :: s).splitOn slash = [] :: s.splitOn slash := by
  rw [splitOn, splitOnP_cons_eq_if_modifyHead, if_pos (by simp)]
  rfl

/-- The pieces of the elements of a path. -/
def elements (ps : List Piece) : List (List Piece) :=
  ps.splitOnP fun p => p.bytes = [slash]

theorem elements_cons (p : Piece) (ps : List Piece) : elements (p :: ps) =
    if p.bytes = [slash] then [] :: elements ps else (elements ps).modifyHead (p :: ·) := by
  simp only [elements, splitOnP_cons_eq_if_modifyHead, decide_eq_true_eq]

/-- No byte of an encoded character separates elements. -/
theorem splitOn_write (ps : List Piece) : (write ps).splitOn slash = (elements ps).map write := by
  have hcons : ∀ (b : UInt8) (s : Bytes), b ≠ slash →
      (b :: s).splitOn slash = (s.splitOn slash).modifyHead (b :: ·) := by
    intro b s hb
    rw [splitOn, splitOnP_cons_eq_if_modifyHead, if_neg (by simpa using hb)]
    rfl
  induction ps with
  | nil => rfl
  | cons p ps ih =>
    rw [elements_cons]
    by_cases hslash : p.bytes = [slash]
    · rw [if_pos hslash, write_cons, hslash, singleton_append, splitOn_slash, ih]
      rfl
    · have hbytes : (p.bytes ++ write ps).splitOn slash =
          ((write ps).splitOn slash).modifyHead (p.bytes ++ ·) := by
        cases p with
        | plain b h => exact hcons b _ fun hb => hslash (congrArg (fun b => [b]) hb)
        | encoded hi lo hhi hlo =>
          have hpct : percent ≠ slash := by decide
          rw [bytes, cons_append, cons_append, cons_append, nil_append,
            hcons _ _ hpct, hcons _ _ (mem_hexDigits hi hhi).2.2,
            hcons _ _ (mem_hexDigits lo hlo).2.2, modifyHead_modifyHead,
            modifyHead_modifyHead]
          rfl
      rw [if_neg hslash, write_cons, hbytes, ih]
      cases elements ps <;> rfl

theorem subset_of_mem_elements : ∀ q ∈ elements ps, q ⊆ ps := by
  induction ps with
  | nil => simp [elements]
  | cons p ps ih =>
    rw [elements_cons]
    split
    · simpa using fun q hq => subset_cons_of_subset p (ih q hq)
    · cases hQ : elements ps with
      | nil => simp
      | cons q Q =>
        rw [hQ] at ih
        intro q' hq'
        rcases mem_cons.mp hq' with rfl | hq'
        · exact cons_subset_cons p (ih q (by simp))
        · exact subset_cons_of_subset p (ih q' (by simp [hq']))

theorem mem_foldl_cleanStep {s : Bytes} {stack elements : List Bytes}
    (h : s ∈ elements.foldl cleanStep stack) : s ∈ stack ∨ s ∈ elements := by
  induction elements generalizing stack with
  | nil => exact .inl h
  | cons element elements ih =>
    rcases ih h with hstack | hmem
    · unfold cleanStep at hstack
      split at hstack
      · exact .inl hstack
      · split at hstack
        · exact .inl (mem_of_mem_dropLast hstack)
        · rcases mem_append.mp hstack with hstack | hlast
          · exact .inl hstack
          · rw [mem_singleton.mp hlast]
            exact .inr (.head _)
    · exact .inr (.tail _ hmem)

theorem exists_map_of_forall_mem {β : Type} {f : α → β} {P : α → Prop} {l : List β}
    (h : ∀ y ∈ l, ∃ x, P x ∧ y = f x) : ∃ xs : List α, l = xs.map f ∧ ∀ x ∈ xs, P x := by
  induction l with
  | nil => exact ⟨[], rfl, by simp⟩
  | cons y l ih =>
    obtain ⟨x, hx, rfl⟩ := h y (.head _)
    obtain ⟨xs, rfl, hxs⟩ := ih fun y hy => h y (.tail _ hy)
    exact ⟨x :: xs, rfl, forall_mem_cons.mpr ⟨hx, hxs⟩⟩

/-- The pieces of the elements that are kept are pieces of the path. -/
theorem cleanElements_write (ps : List Piece) :
    ∃ Q : List (List Piece), cleanElements (write ps) = Q.map write ∧ ∀ q ∈ Q, q ⊆ ps := by
  refine exists_map_of_forall_mem fun s hs => ?_
  rcases mem_foldl_cleanStep hs with hnil | hs
  · cases hnil
  · rw [splitOn_write] at hs
    obtain ⟨q, hq, rfl⟩ := mem_map.mp hs
    exact ⟨q, subset_of_mem_elements q hq, rfl⟩

theorem cleanElements_slash (p : Bytes) : cleanElements (slash :: p) = cleanElements p := by
  rw [cleanElements, splitOn_slash, foldl_cons]
  rfl

theorem intercalate_cons_cons (sep x y : List α) (l : List (List α)) :
    sep.intercalate (x :: y :: l) = x ++ (sep ++ sep.intercalate (y :: l)) := by
  simp [intercalate]

theorem intercalate_write (Q : List (List Piece)) :
    [slash].intercalate (Q.map write) = write ([slashPiece].intercalate Q) := by
  induction Q with
  | nil => rfl
  | cons q Q ih =>
    cases Q with
    | nil => simp [intercalate]
    | cons q' Q =>
      rw [map_cons, map_cons, intercalate_cons_cons, intercalate_cons_cons,
        ← map_cons, ih, write_append, write_append]
      rfl

theorem mem_intercalate_iff {a x : α} {Q : List (List α)} (hx : x ≠ a) :
    x ∈ [a].intercalate Q ↔ ∃ q ∈ Q, x ∈ q := by
  induction Q with
  | nil => simp [intercalate]
  | cons q Q ih =>
    cases Q with
    | nil => simp [intercalate]
    | cons q' Q =>
      rw [intercalate_cons_cons, mem_append, mem_append, ih]
      simp [hx]

/-- What `JoinPath` makes of a path: the elements that are kept, and slashes. -/
theorem joinPath_pieces (ps : List Piece) :
    ∃ (Q : List (List Piece)) (before after : List Piece),
      cleanElements (write ps) = Q.map write ∧ (∀ q ∈ Q, q ⊆ ps) ∧
      (∀ p ∈ before ++ after, p = slashPiece) ∧ ∀ u : URL, u.escapedPath = write ps →
        setPath (write (before ++ [slashPiece].intercalate Q ++ after)) = some u.joinPath := by
  obtain ⟨Q, hQ, hsub⟩ := cleanElements_write ps
  -- the path without the slash that may be added at its end
  obtain ⟨before, p, hbefore, hp, hjoin⟩ : ∃ before p, (∀ q ∈ before, q = slashPiece) ∧
      p = write (before ++ [slashPiece].intercalate Q) ∧
      ((∀ u, u.escapedPath = write ps → u.joinPath = (setPath p).getD u) ∨
        ∀ u, u.escapedPath = write ps → u.joinPath = (setPath (p ++ [slash])).getD u) := by
    have hor : ∀ (elem p : Bytes), (∀ u, u.escapedPath = write ps → u.joinPath =
        (setPath (if elem.getLast? = some slash ∧ p.getLast? ≠ some slash then p ++ [slash]
          else p)).getD u) →
        (∀ u, u.escapedPath = write ps → u.joinPath = (setPath p).getD u) ∨
          ∀ u, u.escapedPath = write ps → u.joinPath = (setPath (p ++ [slash])).getD u := by
      intro elem p h
      split at h
      · exact .inr h
      · exact .inl h
    by_cases hrooted : (write ps).head? = some slash
    · refine ⟨[slashPiece], clean (write ps), by simp, ?_, hor (write ps) _ fun u he => ?_⟩
      · rw [clean, hQ, intercalate_write]
        rfl
      · simp only [URL.joinPath, he, if_pos hrooted]
    · refine ⟨[], (clean (slash :: write ps)).tail, by simp, ?_,
        hor (slash :: write ps) _ fun u he => ?_⟩
      · rw [clean, cleanElements_slash, hQ, intercalate_write]
        rfl
      · simp only [URL.joinPath, he, if_neg hrooted]
  rcases hjoin with hjoin | hjoin
  · refine ⟨Q, before, [], hQ, hsub, by simpa using hbefore, fun u he => ?_⟩
    rw [hjoin u he, hp, append_nil, setPath_write]
    rfl
  · refine ⟨Q, before, [slashPiece], hQ, hsub, ?_, fun u he => ?_⟩
    · simpa [or_imp, forall_and] using hbefore
    · rw [hjoin u he, hp, show [slash] = write [slashPiece] from rfl, ← write_append, setPath_write]
      rfl

/-- The check sees the elements that are kept. -/
theorem rejects_joinPath (he : u.escapedPath = write ps) (hval : ps.all validPiece = true) :
    rejects r.map u.joinPath.escapedPath = true ↔
      ∃ s ∈ cleanElements (write ps), Contains r.map s := by
  obtain ⟨Q, pre, after, hQ, hsub, hslash, hjoin⟩ := joinPath_pieces ps
  have hset := hjoin u he
  have hpiece : ∀ p ∈ pre ++ [slashPiece].intercalate Q ++ after,
      p = slashPiece ∨ ∃ q ∈ Q, p ∈ q := by
    intro p hp
    by_cases heq : p = slashPiece
    · exact .inl heq
    · simp only [mem_append, mem_intercalate_iff heq] at hp
      rcases hp with (hp | hp) | hp
      · exact .inl (hslash p (by simp [hp]))
      · exact .inr hp
      · exact .inl (hslash p (by simp [hp]))
  rw [rejects_setPath hset, hQ]
  · simp only [mem_map, exists_exists_and_eq_and, contains_write_iff, any_eq_true]
    constructor
    · rintro ⟨p, hp, hdenied⟩
      rcases hpiece p hp with rfl | ⟨q, hq, hpq⟩
      · cases hdenied
      · exact ⟨q, hq, p, hpq, hdenied⟩
    · rintro ⟨q, hq, p, hpq, hdenied⟩
      have hne : p ≠ slashPiece := by
        rintro rfl
        cases hdenied
      have hmem := (mem_intercalate_iff hne).mpr ⟨q, hq, hpq⟩
      exact ⟨p, by simp [hmem], hdenied⟩
  · refine all_eq_true.mpr fun p hp => ?_
    rcases hpiece p hp with rfl | ⟨q, hq, hpq⟩
    · decide
    · exact all_eq_true.mp hval p (hsub q hq hpq)

/-! ## Denied characters are rejected -/

/-- The path that is checked or cleaned, of a path as received and decoded. -/
def seen (p path : Bytes) : Bytes :=
  if validEncoded p = true then (normalizedRawPath p).getD p else escape shouldEscape path

theorem seen_write (ps : List Piece) : seen (write ps) (ps.map value) = write (seenPieces ps) := by
  unfold seen seenPieces
  rw [validEncoded_write]
  split
  next h => rw [normalizedRawPath_valid h, Option.getD_some]
  next => exact escape_value ps

/-- **When a path with a denied character is rejected.**  Without sanitisation: no
    byte that must be encoded stands in it as it is, or its default encoding still
    has a denied character.  With sanitisation: an element with a denied character
    is kept when the path is cleaned. -/
theorem denied_iff (r : RouterDeniedEncodedPathCharacters) (sanitize : Bool) {p : Bytes} {u : URL}
    (hset : setPath p = some u) (hp : Contains r.map p) :
    handle sanitize r.map u = .badRequest ↔
      if sanitize then ∃ s ∈ cleanElements (seen p u.path), Contains r.map s
      else validEncoded p = true ∨ ∃ b ∈ u.path, shouldEscape b = true ∧ encode b ∈ r.map := by
  obtain ⟨path, hpath, -⟩ := Option.map_eq_some_iff.mp hset
  obtain ⟨ps, rfl, -⟩ := exists_pieces hpath
  have hvalue : u.path = ps.map value := by
    rw [setPath_write, Option.some.injEq] at hset
    rw [← hset]
  rw [contains_write_iff] at hp
  have hstar : ps.map value ≠ ascii "*" := by
    intro hstar
    rw [not_denied_star hstar] at hp
    cases hp
  obtain ⟨u', hnormal, hseen⟩ := normalizePath_seen hset hstar
  have hne : r.map ≠ [] := by
    obtain ⟨hi, lo, hmem, -⟩ := contains_write_iff.mpr hp
    exact ne_nil_of_mem hmem
  have hdeny : ∀ v, denyEncodedPathCharacters r.map v = .badRequest ↔
      rejects r.map v.escapedPath = true := by
    intro v
    rw [denyEncodedPathCharacters, if_neg hne]
    split <;> simp [*]
  simp only [handle, hnormal, hdeny]
  cases sanitize with
  | true =>
    rw [if_pos rfl, if_pos rfl, sanitizePath, rejects_joinPath hseen (validPiece_seenPieces ps),
      hvalue, seen_write]
  | false =>
    rw [if_neg (by simp), if_neg (by simp), hseen, rejects_write, validEncoded_write, seenPieces]
    by_cases hval : ps.all validPiece = true
    · simpa [hval, any_map, comp_def] using hp
    · simp [hval, hvalue, any_map, isDenied_of]

/-- Encoded slashes are denied, and nothing else. -/
def denySlash : RouterDeniedEncodedPathCharacters :=
  ⟨false, true, true, true, true, true, true⟩

theorem denied_slash : setPath (ascii "/a%2fb") = some ⟨ascii "/a/b", ascii "/a%2fb"⟩ ∧
    handle false denySlash.map ⟨ascii "/a/b", ascii "/a%2fb"⟩ = .badRequest := by
  have hset : setPath (ascii "/a%2fb") = some ⟨ascii "/a/b", ascii "/a%2fb"⟩ := by decide +kernel
  refine ⟨hset, (denied_iff denySlash false hset ?_).mpr (.inl (by decide))⟩
  exact ⟨chr '2', chr 'f', by decide, ascii "/a", ascii "b", by decide⟩

/-- A byte that must be encoded hides the denied characters of the path, and so does
    an element that is removed with them. -/
theorem denied_passes :
    Contains denySlash.map (ascii "/a%2Fb|") ∧
    (setPath (ascii "/a%2Fb|")).map (handle false denySlash.map) =
      some (.next ⟨ascii "/a/b|", ascii "/a%2Fb|"⟩) ∧
    Contains denySlash.map (ascii "/a%2Fb/../c") ∧
    (setPath (ascii "/a%2Fb/../c")).map (handle true denySlash.map) =
      some (.next ⟨ascii "/c", []⟩) := by
  refine ⟨?_, by decide +kernel, ?_, by decide +kernel⟩
  · exact ⟨chr '2', chr 'F', by decide, ascii "/a", ascii "b|", by decide⟩
  · exact ⟨chr '2', chr 'F', by decide, ascii "/a", ascii "b/../c", by decide⟩

end Ingress.RequestPath
