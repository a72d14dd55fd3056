import Ingress.Framework.Percent
import Ingress.Framework.Reader
import Mathlib.Data.List.DropRight

/-! # The Chunked Coding

    A body in chunks: each is a line that begins with its length, in hexadecimal, the bytes and
    a line end.  The last one is a line with the length 0.

    * `Coding`: the coding, by its grammar.
    * `Coding.unique`: the bytes decide where it ends.
    * `reader`: the reader of `net/http`, with its limits.
    * `coding_of_readChunks`: it takes a whole coding, and no more. -/

open List Incremental Percent

namespace Chunked

/-! ## The coding -/

/-- The number that hexadecimal digits write. -/
def hexValue (digits : Bytes) : ℕ :=
  digits.foldl (fun n b => n * 16 + (unhex b).toNat) 0

/-- A line that begins with a length; what follows the digits is an extension. -/
structure SizeLine (line : Bytes) (n : ℕ) : Prop where
  noReturn : 13 ∉ line
  digits : line.takeWhile ishex ≠ []
  size : hexValue (line.takeWhile ishex) = n

/-- A body in chunks, up to the last chunk. -/
inductive Coding : Bytes → Bytes → Prop where
  | last {line} : SizeLine line 0 → Coding (line ++ [13, 10]) []
  | chunk {line data coding body} : SizeLine line data.length → data ≠ [] → Coding coding body →
      Coding (line ++ 13 :: 10 :: (data ++ 13 :: 10 :: coding)) (data ++ body)

/-- What is left behind the elements up to another one begins with it. -/
theorem eq_of_dropWhile_ne {bs rest : Bytes} {b c : UInt8} (h : bs.dropWhile (· ≠ c) = b :: rest) :
    b = c := by
  have hhead := head?_dropWhile_not (· ≠ c) bs
  rw [h] at hhead
  simpa using hhead

/-- Two lines with what follows their ends. -/
theorem line_unique {line line' rest rest' : Bytes} (h : 13 ∉ line) (h' : 13 ∉ line')
    (heq : line ++ 13 :: rest = line' ++ 13 :: rest') : line = line' ∧ rest = rest' := by
  induction line generalizing line' with
  | nil =>
    cases line' with
    | nil => exact ⟨rfl, (cons.inj heq).2⟩
    | cons b line' => exact absurd ((cons.inj heq).1 ▸ mem_cons_self) h'
  | cons b line ih =>
    cases line' with
    | nil => exact absurd ((cons.inj heq).1 ▸ mem_cons_self) h
    | cons b' line' =>
      obtain ⟨rfl, htail⟩ := cons.inj heq
      obtain ⟨rfl, hrest⟩ := ih (fun hmem => h (.tail _ hmem)) (fun hmem => h' (.tail _ hmem)) htail
      exact ⟨rfl, hrest⟩

/-- **The end of a coding** is decided by the bytes, and so is the body. -/
theorem Coding.unique {coding coding' body body' rest rest' : Bytes} (h : Coding coding body)
    (h' : Coding coding' body') (heq : coding ++ rest = coding' ++ rest') :
    coding = coding' ∧ body = body' := by
  induction h generalizing coding' body' with
  | last hline =>
    cases h' with
    | last hline' =>
      simp only [append_assoc, cons_append] at heq
      obtain ⟨rfl, -⟩ := line_unique hline.noReturn hline'.noReturn heq
      exact ⟨rfl, rfl⟩
    | chunk hline' hdata _ =>
      simp only [append_assoc, cons_append] at heq
      obtain ⟨rfl, -⟩ := line_unique hline.noReturn hline'.noReturn heq
      exact absurd (length_eq_zero_iff.mp (hline'.size.symm.trans hline.size)) hdata
  | chunk hline hdata _ ih =>
    cases h' with
    | last hline' =>
      simp only [append_assoc, cons_append] at heq
      obtain ⟨rfl, -⟩ := line_unique hline.noReturn hline'.noReturn heq
      exact absurd (length_eq_zero_iff.mp (hline.size.symm.trans hline'.size)) hdata
    | chunk hline' _ hcoding =>
      simp only [append_assoc, cons_append] at heq
      obtain ⟨rfl, htail⟩ := line_unique hline.noReturn hline'.noReturn heq
      -- the line tells the length of the data
      obtain ⟨rfl, hchunks⟩ := append_inj (cons.inj htail).2 (hline.size.symm.trans hline'.size)
      obtain ⟨rfl, rfl⟩ := ih hcoding (cons.inj (cons.inj hchunks).2).2
      exact ⟨rfl, rfl⟩

/-! ## The reader -/

/-- A line without its end, which is CR LF.  A line whose end does not come is refused when the
    buffer is full; it would be too long. -/
def readChunkLine (bs : Bytes) : Reading Bytes :=
  let line := bs.takeWhile (· ≠ 10)
  if line.length = bs.length then .more
  else if line.getLast? = some 13 ∧ 13 ∉ line.dropLast ∧ line.dropLast.length < 4096 then
    .done line.dropLast (line.length + 1)
  else .failed

/-- White space at the end of a line. -/
def isOWS (b : UInt8) : Bool :=
  b = chr ' ' || b = chr '\t'

def removeChunkExtension (line : Bytes) : Bytes :=
  line.takeWhile (· ≠ chr ';')

/-- At most 16 digits. -/
def parseHexUint (v : Bytes) : Option ℕ :=
  if v ≠ [] ∧ v.all ishex = true ∧ v.length ≤ 16 then some (hexValue v) else none

/-- The length that a line begins with. -/
def chunkSize (line : Bytes) : Option ℕ :=
  parseHexUint (removeChunkExtension (line.rdropWhile isOWS))

/-- The chunks.  `excess` are the bytes that are not data, as far as they are too many. -/
def readChunks : ℕ → ℤ → Bytes → Reading Bytes
  | 0, _, _ => .more -- every chunk takes a byte
  | fuel + 1, excess, bs =>
    match readChunkLine bs with
    | .more => .more
    | .failed => .failed
    | .done line n =>
      match chunkSize line with
      | none => .failed
      | some len =>
        let excess := max (Int.bmod (excess + line.length + 2 - (16 + 2 * len)) (2 ^ 64)) 0
        if len = 0 then .done [] n
        else if 16 * 1024 < excess then .failed
        else if (bs.drop n).length < len + 2 then .more
        else if ((bs.drop n).drop len).take 2 ≠ [13, 10] then .failed
        else
          match readChunks fuel excess ((bs.drop n).drop (len + 2)) with
          | .more => .more
          | .failed => .failed
          | .done body m => .done ((bs.drop n).take len ++ body) (n + (len + 2) + m)

variable {bs line : Bytes} {n : ℕ}

theorem readChunkLine_done_iff : readChunkLine bs = .done line n ↔
    13 ∉ line ∧ 10 ∉ line ∧ line.length < 4096 ∧ n = line.length + 2 ∧
      ∃ rest, bs = line ++ 13 :: 10 :: rest := by
  constructor
  · intro h
    dsimp only [readChunkLine] at h
    split at h
    · cases h
    next hend =>
    split at h
    · next hline =>
      obtain ⟨rfl, rfl⟩ := Reading.done.inj h
      obtain ⟨hlast, hreturn, hlen⟩ := hline
      have hsplit : (bs.takeWhile (· ≠ 10)).dropLast ++ [13] = bs.takeWhile (· ≠ 10) :=
        dropLast_append_getLast? 13 hlast
      have hfeed : 10 ∉ bs.takeWhile (· ≠ 10) := fun hmem => by simpa using mem_takeWhile_imp hmem
      obtain ⟨b, rest, hrest⟩ : ∃ b rest, bs.dropWhile (· ≠ 10) = b :: rest := by
        cases hdrop : bs.dropWhile (· ≠ 10) with
        | nil =>
          have hall := takeWhile_append_dropWhile (p := (· ≠ (10 : UInt8))) (l := bs)
          rw [hdrop, append_nil] at hall
          exact absurd (congrArg length hall) hend
        | cons b rest => exact ⟨b, rest, rfl⟩
      refine ⟨hreturn, fun hmem => hfeed (mem_of_mem_dropLast hmem), hlen, ?_, rest, ?_⟩
      · have hlength := congrArg length hsplit
        simp only [length_append, length_singleton] at hlength
        omega
      · calc bs = bs.takeWhile (· ≠ 10) ++ bs.dropWhile (· ≠ 10) := takeWhile_append_dropWhile.symm
          _ = _ := by rw [hrest, eq_of_dropWhile_ne hrest, ← hsplit]; simp
    · cases h
  · rintro ⟨hreturn, hfeed, hlen, rfl, rest, rfl⟩
    have htake : (line ++ 13 :: 10 :: rest).takeWhile (· ≠ 10) = line ++ [13] := by
      rw [takeWhile_append_of_pos fun b hb => by simpa using fun h : b = 10 => hfeed (h ▸ hb)]
      rfl
    dsimp only [readChunkLine]
    rw [htake, if_neg (by simp), if_pos (by simpa using ⟨hreturn, hlen⟩)]
    simp

/-- A length that is read stands at the beginning of the line. -/
theorem sizeLine_of_chunkSize (hreturn : 13 ∉ line) (h : chunkSize line = some n) :
    SizeLine line n := by
  unfold chunkSize parseHexUint at h
  split at h
  · next hdigits =>
    obtain ⟨hne, hhex, -⟩ := hdigits
    generalize hv : removeChunkExtension (line.rdropWhile isOWS) = v at hne hhex h
    obtain ⟨rest, hline, hrest⟩ : ∃ rest, line = v ++ rest ∧ rest.takeWhile ishex = [] := by
      refine ⟨(line.rdropWhile isOWS).dropWhile (· ≠ chr ';') ++ line.rtakeWhile isOWS, ?_, ?_⟩
      · rw [← hv, ← append_assoc, removeChunkExtension, takeWhile_append_dropWhile,
          rdropWhile_append_rtakeWhile]
      · cases hext : (line.rdropWhile isOWS).dropWhile (· ≠ chr ';') with
        | cons b ext =>
          rw [eq_of_dropWhile_ne hext]
          rfl
        | nil =>
          cases hspace : line.rtakeWhile isOWS with
          | nil => rfl
          | cons b space =>
            have hb : isOWS b = true := mem_rtakeWhile_imp (hspace ▸ mem_cons_self)
            have hnot : ishex b = false := by
              simp only [isOWS, Bool.or_eq_true, decide_eq_true_eq] at hb
              rcases hb with rfl | rfl <;> decide
            simp [hnot]
    have htake : line.takeWhile ishex = v := by
      rw [hline, takeWhile_append_of_pos (all_eq_true.mp hhex), hrest, append_nil]
    exact ⟨hreturn, htake ▸ hne, htake ▸ Option.some.inj h⟩
  · cases h

/-- A line, and either the end or a chunk with what is read behind it. -/
theorem readChunks_done_iff {fuel : ℕ} {excess : ℤ} {body : Bytes} :
    readChunks (fuel + 1) excess bs = .done body n ↔
      ∃ line rest len, readChunkLine bs = .done line (line.length + 2) ∧
        bs = line ++ 13 :: 10 :: rest ∧ chunkSize line = some len ∧
        (len = 0 ∧ body = [] ∧ n = line.length + 2 ∨
          ∃ excess' data rest' body' m,
            excess' = max (Int.bmod (excess + line.length + 2 - (16 + 2 * len)) (2 ^ 64)) 0 ∧
            excess' ≤ 16 * 1024 ∧ len ≠ 0 ∧ data.length = len ∧ rest = data ++ 13 :: 10 :: rest' ∧
            readChunks fuel excess' rest' = .done body' m ∧ body = data ++ body' ∧
            n = line.length + 2 + (len + 2) + m) := by
  have hdrop : ∀ line rest : Bytes, (line ++ 13 :: 10 :: rest).drop (line.length + 2) = rest := by
    intro line rest
    rw [drop_append]
    simp
  constructor
  · intro h
    rw [readChunks] at h
    split at h
    · cases h
    · cases h
    next line k hline =>
    obtain ⟨-, -, -, rfl, rest, rfl⟩ := readChunkLine_done_iff.mp hline
    split at h
    · cases h
    next len hsize =>
    refine ⟨line, rest, len, hline, rfl, hsize, ?_⟩
    dsimp only at h
    rw [hdrop] at h
    split at h
    · next hzero =>
      obtain ⟨rfl, rfl⟩ := Reading.done.inj h
      exact .inl ⟨hzero, rfl, rfl⟩
    next hzero =>
    split at h
    · cases h
    next hexcess =>
    split at h
    · cases h
    next hlong =>
    split at h
    · cases h
    next hend =>
    split at h
    · cases h
    · cases h
    next body' m hchunks =>
    obtain ⟨rfl, rfl⟩ := Reading.done.inj h
    have hrest : rest = rest.take len ++ 13 :: 10 :: rest.drop (len + 2) := by
      calc rest = rest.take len ++ ((rest.drop len).take 2 ++ (rest.drop len).drop 2) := by simp
        _ = _ := by rw [not_not.mp hend, drop_drop]; rfl
    exact .inr ⟨_, rest.take len, rest.drop (len + 2), body', m, rfl, not_lt.mp hexcess, hzero,
      by rw [length_take]; omega, hrest, hchunks, rfl, rfl⟩
  · rintro ⟨line, rest, len, hline, rfl, hsize, hchunk⟩
    rw [readChunks, hline]
    dsimp only
    rw [hsize]
    dsimp only
    rw [hdrop]
    rcases hchunk with ⟨hzero, rfl, rfl⟩ |
      ⟨excess', data, rest', body', m, rfl, hexcess, hzero, rfl, rfl, hchunks, rfl, rfl⟩
    · rw [if_pos hzero]
    · have hbehind : (data ++ 13 :: 10 :: rest').drop (data.length + 2) = rest' := hdrop data rest'
      rw [if_neg hzero, if_neg (not_lt.mpr hexcess), if_neg (by simp), drop_left, if_neg (by simp),
        hbehind, hchunks, take_left]

/-- **What is read is a whole coding**, and the reader stands behind it. -/
theorem coding_of_readChunks {fuel : ℕ} {excess : ℤ} {body : Bytes}
    (h : readChunks fuel excess bs = .done body n) :
    ∃ coding rest, bs = coding ++ rest ∧ n = coding.length ∧ Coding coding body := by
  induction fuel generalizing excess bs body n with
  | zero => cases h
  | succ fuel ih =>
    obtain ⟨line, rest, len, hline, rfl, hsize, hchunk⟩ := readChunks_done_iff.mp h
    have hsized := sizeLine_of_chunkSize (readChunkLine_done_iff.mp hline).1 hsize
    rcases hchunk with ⟨rfl, rfl, rfl⟩ |
      ⟨_, data, rest', body', m, -, -, hzero, rfl, rfl, hchunks, rfl, rfl⟩
    · exact ⟨line ++ [13, 10], rest, by simp, by simp, .last hsized⟩
    · obtain ⟨coding, behind, rfl, rfl, hbody⟩ := ih hchunks
      refine ⟨line ++ 13 :: 10 :: (data ++ 13 :: 10 :: coding), behind, by simp, ?_,
        .chunk hsized (fun hnil => hzero (by rw [hnil]; rfl)) hbody⟩
      simp only [length_append, length_cons]
      omega

/-- What arrives behind changes nothing. -/
theorem readChunks_append {fuel fuel' : ℕ} {excess : ℤ} {body : Bytes} (hfuel : fuel ≤ fuel')
    (cs : Bytes) (h : readChunks fuel excess bs = .done body n) :
    readChunks fuel' excess (bs ++ cs) = .done body n := by
  induction fuel generalizing fuel' excess bs body n with
  | zero => cases h
  | succ fuel ih =>
    obtain ⟨fuel', rfl⟩ : ∃ k, fuel' = k + 1 := ⟨fuel' - 1, by omega⟩
    obtain ⟨line, rest, len, hline, rfl, hsize, hchunk⟩ := readChunks_done_iff.mp h
    obtain ⟨hreturn, hfeed, hlen, -, -⟩ := readChunkLine_done_iff.mp hline
    have hline' : readChunkLine (line ++ 13 :: 10 :: rest ++ cs) = .done line (line.length + 2) :=
      readChunkLine_done_iff.mpr ⟨hreturn, hfeed, hlen, rfl, rest ++ cs, by simp⟩
    refine readChunks_done_iff.mpr ⟨line, rest ++ cs, len, hline', by simp, hsize, ?_⟩
    rcases hchunk with hlast |
      ⟨excess', data, rest', body', m, heq, hexcess, hzero, hdata, rfl, hchunks, hbody, hn⟩
    · exact .inl hlast
    · exact .inr ⟨excess', data, rest' ++ cs, body', m, heq, hexcess, hzero, hdata, by simp,
        ih (by omega) hchunks, hbody, hn⟩

/-- The reader of a body in chunks. -/
def reader : Reader UInt8 Bytes where
  read bs := readChunks bs.length 0 bs
  read_pos := by
    intro bs body n h
    obtain ⟨coding, rest, rfl, rfl, hcoding⟩ := coding_of_readChunks h
    refine ⟨?_, by simp⟩
    cases hcoding <;> simp
  read_append := by
    intro bs body n cs h
    exact readChunks_append (by simp) cs h

example : reader.read ("3;a=b\r\nabc\r\n0\r\n\r\n".toList.map chr) =
    .done ("abc".toList.map chr) 15 := by
  rfl

end Chunked
