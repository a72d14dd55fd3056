import Mathlib.Tactic

/-! # Percent-Encoding

    Byte strings in which some bytes are written as `%XX`.  A string that is
    well-formed is a list of pieces, each of them a plain byte or an encoded one;
    loops over such strings work piece by piece.

    * `unescape`, `escape`: decoding, and encoding of the bytes that need it.
    * `scan`: the loop over a string that takes encoded bytes as a whole.
    * `exists_pieces`: what can be decoded is a list of pieces. -/

open List

namespace Percent

/-- Byte strings. -/
abbrev Bytes := List UInt8

/-- The byte of a character. -/
def chr (c : Char) : UInt8 :=
  UInt8.ofNat c.toNat

/-- The byte that begins an encoded byte. -/
def percent : UInt8 :=
  chr '%'

/-- What holds of all elements of a list, by evaluation. -/
theorem forall_mem_of_all {α : Type} {l : List α} {P : α → Prop} [DecidablePred P]
    (h : (l.all fun a => decide (P a)) = true) (a : α) (ha : a ∈ l) : P a :=
  of_decide_eq_true (all_eq_true.mp h a ha)

/-- What holds of all numbers below 256 holds of all bytes. -/
theorem forall_byte {P : UInt8 → Prop} (h : ∀ n : Fin 256, P (UInt8.ofNat n)) (b : UInt8) :
    P b := by
  have hb := h ⟨b.toNat, b.toNat_lt⟩
  simpa using hb

/-! ## Hexadecimal digits -/

/-- A hexadecimal digit. -/
def ishex (c : UInt8) : Bool :=
  (chr '0' ≤ c && c ≤ chr '9') || (chr 'a' ≤ c && c ≤ chr 'f') || (chr 'A' ≤ c && c ≤ chr 'F')

/-- The value of a hexadecimal digit. -/
def unhex (c : UInt8) : UInt8 :=
  if chr '0' ≤ c && c ≤ chr '9' then c - chr '0'
  else if chr 'a' ≤ c && c ≤ chr 'f' then c - chr 'a' + 10
  else if chr 'A' ≤ c && c ≤ chr 'F' then c - chr 'A' + 10
  else 0

/-- The digit, in upper case, of a value below 16. -/
def upperhex (n : UInt8) : UInt8 :=
  if n < 10 then chr '0' + n else chr 'A' + (n - 10)

/-- An ASCII letter in upper case. -/
def toUpper (c : UInt8) : UInt8 :=
  if chr 'a' ≤ c && c ≤ chr 'z' then c - 32 else c

/-- The byte that two digits stand for. -/
def decode (hi lo : UInt8) : UInt8 :=
  (unhex hi <<< 4) ||| unhex lo

/-- A byte in its encoded form. -/
def encode (b : UInt8) : Bytes :=
  [percent, upperhex (b >>> 4), upperhex (b &&& 15)]

/-! ## Decoding and encoding -/

/-- Decode what is encoded. -/
def unescape : Bytes → Option Bytes
  | [] => some []
  | c :: s =>
    if c = percent then
      match s with
      | hi :: lo :: rest =>
        if ishex hi && ishex lo then (unescape rest).map (decode hi lo :: ·) else none
      | _ => none
    else (unescape s).map (c :: ·)

/-- Encode the bytes of `should`. -/
def escape (should : UInt8 → Bool) (s : Bytes) : Bytes :=
  s.flatMap fun c => if should c then encode c else [c]

/-- The loop over a string: `plain` for a byte that stands for itself, `triple` for
    the two bytes after a `%`.  It fails when there are not two. -/
def scan {β : Type u} (plain : UInt8 → β) (triple : UInt8 → UInt8 → β) : Bytes → Option (List β)
  | [] => some []
  | c :: s =>
    if c = percent then
      match s with
      | hi :: lo :: rest => (scan plain triple rest).map (triple hi lo :: ·)
      | _ => none
    else (scan plain triple s).map (plain c :: ·)

/-! ## Pieces -/

/-- A plain byte, or an encoded one. -/
inductive Piece where
  | plain (b : UInt8) (h : b ≠ percent)
  | encoded (hi lo : UInt8) (hhi : ishex hi = true) (hlo : ishex lo = true)

/-- How the piece is written. -/
def Piece.bytes : Piece → Bytes
  | .plain b _ => [b]
  | .encoded hi lo _ _ => [percent, hi, lo]

/-- What the piece stands for. -/
def Piece.value : Piece → UInt8
  | .plain b _ => b
  | .encoded hi lo _ _ => decode hi lo

/-- A function of pieces. -/
def Piece.elim {β : Type u} (plain : UInt8 → β) (triple : UInt8 → UInt8 → β) : Piece → β
  | .plain b _ => plain b
  | .encoded hi lo _ _ => triple hi lo

/-- How a list of pieces is written. -/
def write (ps : List Piece) : Bytes :=
  ps.flatMap Piece.bytes

@[simp] theorem write_nil : write [] = [] := rfl

@[simp] theorem write_cons (p : Piece) (ps : List Piece) : write (p :: ps) = p.bytes ++ write ps :=
  rfl

theorem write_append (ps qs : List Piece) : write (ps ++ qs) = write ps ++ write qs :=
  flatMap_append

theorem scan_plain {β : Type u} (plain : UInt8 → β) (triple : UInt8 → UInt8 → β) {b : UInt8}
    (h : b ≠ percent) (s : Bytes) :
    scan plain triple (b :: s) = (scan plain triple s).map (plain b :: ·) := by
  rw [scan.eq_def]
  simp [h]

theorem unescape_plain {b : UInt8} (h : b ≠ percent) (s : Bytes) :
    unescape (b :: s) = (unescape s).map (b :: ·) := by
  rw [unescape.eq_def]
  simp [h]

open Piece

/-- **Loops** over what is well-formed work piece by piece. -/
theorem scan_write {β : Type u} (plain : UInt8 → β) (triple : UInt8 → UInt8 → β)
    (ps : List Piece) : scan plain triple (write ps) = some (ps.map (elim plain triple)) := by
  induction ps with
  | nil => rfl
  | cons p ps ih =>
    cases p with
    | plain b h =>
      rw [write_cons, bytes, singleton_append, scan_plain plain triple h, ih]
      rfl
    | encoded hi lo hhi hlo => simp [bytes, scan, ih, elim]

theorem unescape_write (ps : List Piece) : unescape (write ps) = some (ps.map value) := by
  induction ps with
  | nil => rfl
  | cons p ps ih =>
    cases p with
    | plain b h =>
      rw [write_cons, bytes, singleton_append, unescape_plain h, ih]
      rfl
    | encoded hi lo hhi hlo => simp [bytes, unescape, hhi, hlo, ih, value]

theorem exists_write {s v : Bytes} (h : unescape s = some v) : ∃ ps, s = write ps := by
  fun_induction unescape s generalizing v with
  | case1 => exact ⟨[], rfl⟩
  | case2 hi lo rest hhex ih =>
    obtain ⟨w, hw, _⟩ := Option.map_eq_some_iff.mp h
    obtain ⟨ps, rfl⟩ := ih hw
    rw [Bool.and_eq_true] at hhex
    exact ⟨.encoded hi lo hhex.1 hhex.2 :: ps, rfl⟩
  | case3 => cases h
  | case4 => cases h
  | case5 c s hc ih =>
    obtain ⟨w, hw, _⟩ := Option.map_eq_some_iff.mp h
    obtain ⟨ps, rfl⟩ := ih hw
    exact ⟨.plain c hc :: ps, rfl⟩

/-- **What can be decoded** is a list of pieces. -/
theorem exists_pieces {s v : Bytes} (h : unescape s = some v) :
    ∃ ps, s = write ps ∧ v = ps.map value := by
  obtain ⟨ps, rfl⟩ := exists_write h
  rw [unescape_write] at h
  cases h
  exact ⟨ps, rfl, rfl⟩

/-- A string is written in one way only. -/
theorem write_injective {ps qs : List Piece} (h : write ps = write qs) : ps = qs := by
  have hscan := congrArg (scan (.inl : UInt8 → UInt8 ⊕ UInt8 × UInt8) fun hi lo => .inr (hi, lo)) h
  rw [scan_write, scan_write, Option.some.injEq] at hscan
  refine map_injective_iff.mpr (fun p q hpq => ?_) hscan
  cases p <;> cases q <;> simp_all [elim]

theorem ishex_ne_percent : ∀ b, ishex b = true → b ≠ percent := forall_byte (by decide +kernel)

/-- An encoded byte is written with two bytes more, one of them a `%`. -/
theorem length_bytes (p : Piece) : p.bytes.length = 1 + 2 * p.bytes.count percent := by
  cases p with
  | plain b h => simp [bytes, h]
  | encoded hi lo hhi hlo =>
    simp [bytes, ishex_ne_percent hi hhi, ishex_ne_percent lo hlo]

theorem length_of_unescape {s v : Bytes} (h : unescape s = some v) :
    s.length = v.length + 2 * s.count percent := by
  obtain ⟨ps, rfl, rfl⟩ := exists_pieces h
  rw [length_map]
  clear h
  induction ps with
  | nil => rfl
  | cons p ps ih =>
    rw [write_cons, length_append, count_append, length_cons, ih, length_bytes]
    omega

/-- What holds of the digits and of `%` holds of all bytes when it holds of the plain ones. -/
theorem all_write {f : UInt8 → Bool} (hpct : f percent = true)
    (hhex : ∀ b, ishex b = true → f b = true) (ps : List Piece) :
    (write ps).all f = ps.all (elim f fun _ _ => true) := by
  induction ps with
  | nil => rfl
  | cons p ps ih =>
    rw [write_cons, all_append, all_cons, ih]
    congr 1
    cases p with
    | plain b h => exact Bool.and_true _
    | encoded hi lo hhi hlo => simp [bytes, elim, hpct, hhex hi hhi, hhex lo hlo]

/-- What has no `%` stands for itself. -/
theorem unescape_append {p : Bytes} (h : percent ∉ p) (s : Bytes) :
    unescape (p ++ s) = (unescape s).map (p ++ ·) := by
  induction p with
  | nil => simp
  | cons b p ih =>
    rw [mem_cons, not_or] at h
    rw [cons_append, unescape_plain (Ne.symm h.1), ih h.2, Option.map_map]
    rfl

/-- An encoded byte in a string is one of its pieces. -/
theorem infix_write_iff {hi lo : UInt8} {ps : List Piece} :
    [percent, hi, lo] <:+: write ps ↔ ∃ hhi hlo, encoded hi lo hhi hlo ∈ ps := by
  induction ps with
  | nil => simp
  | cons p ps ih =>
    cases p with
    | plain b h =>
      simp [bytes, infix_cons_iff, cons_prefix_cons, h.symm, ih]
    | encoded hi' lo' hhi' hlo' =>
      have hne := (ishex_ne_percent hi' hhi').symm
      have hne' := (ishex_ne_percent lo' hlo').symm
      simp only [write_cons, bytes, cons_append, nil_append, infix_cons_iff,
        cons_prefix_cons, nil_prefix, and_true, true_and, hne, hne', false_and, false_or,
        ih, mem_cons, encoded.injEq]
      constructor
      · rintro (⟨rfl, rfl⟩ | ⟨hhi, hlo, hmem⟩)
        · exact ⟨hhi', hlo', .inl ⟨rfl, rfl⟩⟩
        · exact ⟨hhi, hlo, .inr hmem⟩
      · rintro ⟨hhi, hlo, heq | hmem⟩
        · exact .inl heq
        · exact .inr ⟨hhi, hlo, hmem⟩

/-! ## The encoded form of a byte -/

theorem ishex_upperhex :
    ∀ b : UInt8, ishex (upperhex (b >>> 4)) = true ∧ ishex (upperhex (b &&& 15)) = true :=
  forall_byte (by decide +kernel)

theorem decode_upperhex : ∀ b : UInt8, decode (upperhex (b >>> 4)) (upperhex (b &&& 15)) = b :=
  forall_byte (by decide +kernel)

theorem encode_injective {a b : UInt8} (h : encode a = encode b) : a = b := by
  obtain ⟨hhi, hlo⟩ : upperhex (a >>> 4) = upperhex (b >>> 4) ∧
      upperhex (a &&& 15) = upperhex (b &&& 15) := by simpa [encode] using h
  rw [← decode_upperhex a, ← decode_upperhex b, hhi, hlo]

/-- A byte as a piece, encoded when it is in `should`. -/
def Piece.of (should : UInt8 → Bool) (hpercent : should percent = true) (b : UInt8) : Piece :=
  if h : should b = true then
    .encoded (upperhex (b >>> 4)) (upperhex (b &&& 15)) (ishex_upperhex b).1 (ishex_upperhex b).2
  else .plain b fun heq => h (heq ▸ hpercent)

/-- What is encoded is a list of pieces. -/
theorem escape_eq_write (should : UInt8 → Bool) (hpct : should percent = true) (v : Bytes) :
    escape should v = write (v.map (of should hpct)) := by
  induction v with
  | nil => rfl
  | cons b v ih =>
    have hcons : escape should (b :: v) =
        (if should b then encode b else [b]) ++ escape should v := rfl
    rw [hcons, ih, map_cons, write_cons]
    congr 1
    unfold of
    split <;> rfl

@[simp] theorem Piece.value_of (should : UInt8 → Bool) (hpct : should percent = true)
    (b : UInt8) : (of should hpct b).value = b := by
  unfold of
  split
  · exact decode_upperhex b
  · rfl

end Percent
