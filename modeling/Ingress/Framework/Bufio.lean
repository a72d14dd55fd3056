import Mathlib.Tactic

/-! # Buffered Readers

    The buffered reader of the Go standard library (`bufio.Reader`), over any
    source: what has been read from the source and not been consumed is in the
    buffer, and `Peek` fills the buffer without consuming.

    * `Source`: something that can be read; a read takes a beginning of what is
      still to be read.
    * `Reader`, `fill`, `peek`, `read`: the reader.  A reader is a source again
      (`Source.buffered`), so readers can be stacked.
    * `Chunked`: a connection whose reads stop at given places.
    * `Filled`: where the buffer of a reader that was only peeked ends.
    * `stacked_clean_iff`: whether a reader that was stacked on another leaves
      something in the buffer of the other. -/

open Or List

namespace Bufio

variable {α σ : Type}

/-- What a read fails with. -/
inductive Err where
  | eof
  | timeout
  | noProgress
  | bufferFull
  deriving DecidableEq, Repr

/-- Something to read from: `read n` reads at most `n` items, and `items` are
    those still to be read. -/
structure Source (α σ : Type) where
  read : Nat → σ → (List α × Option Err) × σ
  items : σ → List α
  items_read : ∀ n s, (read n s).1.1 ++ items (read n s).2 = items s
  length_read : ∀ n s, (read n s).1.1.length ≤ n

/-- A reader with a buffer of `size` items: those not yet consumed, and an error
    of the source that was not returned yet. -/
structure Reader (α σ : Type) where
  size : Nat
  buf : List α
  err : Option Err
  src : σ

namespace Reader

/-- `NewReaderSize` of something that is no reader of that size. -/
def new (size : Nat) (src : σ) : Reader α σ where
  size := max size 16
  buf := []
  err := none
  src

/-- The loop of `fill`: empty reads are repeated. -/
def fillTries (source : Source α σ) : Nat → Reader α σ → Reader α σ
  | 0, b => { b with err := some .noProgress }
  | tries + 1, b =>
    match source.read (b.size - b.buf.length) b.src with
    | ((data, some e), src) => { b with buf := b.buf ++ data, err := some e, src }
    | (([], none), src) => fillTries source tries { b with src }
    | ((data, none), src) => { b with buf := b.buf ++ data, src }

variable (source : Source α σ)

def fill (b : Reader α σ) : Reader α σ :=
  fillTries source 100 b

/-- Something is missing for a peek of `n` items, and it may come. -/
def Wants (n : Nat) (b : Reader α σ) : Prop :=
  b.buf.length < n ∧ b.buf.length < b.size ∧ b.err = none

instance (n : Nat) (b : Reader α σ) : Decidable (b.Wants n) :=
  inferInstanceAs (Decidable (_ ∧ _))

/-- The loop of `Peek`, with a bound on its turns. -/
def peekLoop (source : Source α σ) (n : Nat) : Nat → Reader α σ → Reader α σ
  | 0, b => b
  | turns + 1, b => if b.Wants n then peekLoop source n turns (b.fill source) else b

/-- `Peek`.  Every turn of its loop brings an item or an error, so `n` turns
    suffice (`not_wants_peekLoop`). -/
def peek (n : Nat) (b : Reader α σ) : (List α × Option Err) × Reader α σ :=
  let b := peekLoop source n n b
  if b.size < n then ((b.buf, some .bufferFull), b)
  else if b.buf.length < n then ((b.buf, some (b.err.getD .bufferFull)), { b with err := none })
  else ((b.buf.take n, none), b)

def read (source : Source α σ) (n : Nat) (b : Reader α σ) : (List α × Option Err) × Reader α σ :=
  if n = 0 then
    if b.buf = [] then (([], b.err), { b with err := none }) else (([], none), b)
  else if b.buf = [] then
    match b.err with
    | some e => (([], some e), { b with err := none })
    | none =>
      if b.size ≤ n then
        -- a large read goes past the buffer
        let (result, src) := source.read n b.src
        (result, { b with src })
      else
        match source.read b.size b.src with
        | (([], err), src) => (([], err), { b with src })
        | ((data, err), src) =>
          ((data.take n, none), { b with buf := data.drop n, err, src })
  else ((b.buf.take n, none), { b with buf := b.buf.drop n })

/-- What is still to be read. -/
def items (source : Source α σ) (b : Reader α σ) : List α :=
  b.buf ++ source.items b.src

variable {source : Source α σ} {b : Reader α σ} {n : Nat}

theorem items_read (n : Nat) (b : Reader α σ) :
    (b.read source n).1.1 ++ (b.read source n).2.items source = b.items source := by
  have hn := source.items_read n b.src
  have hsize := source.items_read b.size b.src
  unfold read items
  split
  · split <;> simp
  · split
    · next hbuf =>
      split
      · simp [hbuf]
      · split
        · simpa [hbuf] using hn
        · split
          · next err src hread =>
            rw [hread] at hsize
            simpa [hbuf] using hsize
          · next data err src _ hread =>
            rw [hread] at hsize
            simpa [hbuf, ← append_assoc] using hsize
    · simp [← append_assoc]

theorem length_read (n : Nat) (b : Reader α σ) : (b.read source n).1.1.length ≤ n := by
  have hn := source.length_read n b.src
  unfold read
  split
  · split <;> simp
  · split
    · split
      · simp
      · split
        · exact hn
        · split <;> simp
    · simp

/-! ## Filling the buffer -/

theorem fill_of_data {data : List α} {src : σ}
    (h : source.read (b.size - b.buf.length) b.src = ((data, none), src)) (hdata : data ≠ []) :
    b.fill source = { b with buf := b.buf ++ data, src } := by
  unfold fill fillTries
  rw [h]
  cases data with
  | nil => exact absurd rfl hdata
  | cons a as => rfl

theorem items_fillTries (tries : Nat) (b : Reader α σ) :
    (fillTries source tries b).items source = b.items source := by
  induction tries generalizing b with
  | zero => rfl
  | succ tries ih =>
    have hread := source.items_read (b.size - b.buf.length) b.src
    unfold fillTries
    split
    · next data e src h =>
      rw [h] at hread
      simp [items, ← hread]
    · next src h =>
      rw [h] at hread
      rw [ih]
      simpa [items] using hread
    · next data src _ h =>
      rw [h] at hread
      simp [items, ← hread]

/-- Peeking consumes nothing. -/
theorem items_peekLoop (source : Source α σ) (n turns : Nat) (b : Reader α σ) :
    (peekLoop source n turns b).items source = b.items source := by
  induction turns generalizing b with
  | zero => rfl
  | succ turns ih =>
    unfold peekLoop
    split
    · rw [ih]
      exact items_fillTries 100 b
    · rfl

theorem peekLoop_of_wants (h : b.Wants n) (turns : Nat) :
    peekLoop source n (turns + 1) b = peekLoop source n turns (b.fill source) :=
  if_pos h

theorem peekLoop_of_not_wants (h : ¬ b.Wants n) (turns : Nat) : peekLoop source n turns b = b := by
  cases turns with
  | zero => rfl
  | succ turns => exact if_neg h

theorem size_fillTries (src : Source α σ) (tries : Nat) (b : Reader α σ) :
    (fillTries src tries b).size = b.size := by
  induction tries generalizing b with
  | zero => rfl
  | succ tries ih =>
    unfold fillTries
    split
    · rfl
    · exact ih _
    · rfl

theorem size_peekLoop (src : Source α σ) (n turns : Nat) (b : Reader α σ) :
    (peekLoop src n turns b).size = b.size := by
  induction turns generalizing b with
  | zero => rfl
  | succ turns ih =>
    unfold peekLoop
    split
    · exact (ih _).trans (size_fillTries src 100 b)
    · rfl

/-- A peek whose loop gets everything succeeds. -/
theorem peek_of_peekLoop (hsize : n ≤ b.size) (hlen : n ≤ (peekLoop source n n b).buf.length) :
    b.peek source n = (((b.items source).take n, none), peekLoop source n n b) := by
  have hitems := items_peekLoop source n n b
  unfold peek
  rw [← hitems, items, take_append_of_le_length hlen]
  simp [size_peekLoop, not_lt.mpr hsize, not_lt.mpr hlen]

end Reader

/-- A reader as a source. -/
def Source.buffered (source : Source α σ) : Source α (Reader α σ) where
  read := Reader.read source
  items := Reader.items source
  items_read := Reader.items_read
  length_read := Reader.length_read

/-! ## Connections -/

/-- What a read finds at once. -/
structure Chunk (α : Type) where
  data : List α
  nonempty : data ≠ []

/-- A connection: the chunks still to come, and the error after them. -/
structure Chunked (α : Type) where
  chunks : List (Chunk α)
  err : Err

namespace Chunked

/-- A read takes the next chunk, or as much of it as there is room for. -/
def read (n : Nat) (c : Chunked α) : (List α × Option Err) × Chunked α :=
  match c.chunks with
  | [] => (([], some c.err), c)
  | chunk :: rest =>
    if h : chunk.data.length ≤ n then ((chunk.data, none), { c with chunks := rest })
    else
      ((chunk.data.take n, none),
        { c with chunks := ⟨chunk.data.drop n, by simpa using h⟩ :: rest })

/-- What is still to be read. -/
def items (c : Chunked α) : List α :=
  c.chunks.flatMap Chunk.data

/-- A connection as a source. -/
def source : Source α (Chunked α) where
  read := read
  items := items
  items_read := by
    intro n c
    unfold read items
    split
    · next h => simp [h]
    · next h => split <;> simp [h, ← List.append_assoc]
  length_read := by
    intro n c
    unfold read
    split
    · simp
    · split
      · assumption
      · simp

end Chunked

/-- Where the chunks end, for chunks that begin at `pos`. -/
def endsFrom (pos : Nat) : List (Chunk α) → List Nat
  | [] => []
  | chunk :: rest => (pos + chunk.data.length) :: endsFrom (pos + chunk.data.length) rest

namespace Chunked

variable {c : Chunked α} {chunk : Chunk α} {rest : List (Chunk α)} {n : Nat}

theorem read_whole (h : c.chunks = chunk :: rest) (hle : chunk.data.length ≤ n) :
    c.read n = ((chunk.data, none), { c with chunks := rest }) := by
  unfold read
  simp only [h]
  exact dif_pos hle

theorem read_part (h : c.chunks = chunk :: rest) (hlt : n < chunk.data.length) :
    c.read n = ((chunk.data.take n, none),
      { c with chunks := ⟨chunk.data.drop n, by simpa using hlt⟩ :: rest }) := by
  unfold read
  simp only [h]
  exact dif_neg (not_le.mpr hlt)

end Chunked

theorem Chunk.length_pos (chunk : Chunk α) : 0 < chunk.data.length :=
  length_pos_iff.mpr chunk.nonempty

variable {chunks : List (Chunk α)}

theorem lt_of_mem_endsFrom {pos x : Nat} (h : x ∈ endsFrom pos chunks) : pos < x := by
  induction chunks generalizing pos with
  | nil => cases h
  | cons chunk rest ih =>
    have := chunk.length_pos
    rcases mem_cons.mp h with rfl | h
    · omega
    · have := ih h
      omega

/-! ## Where a peeked buffer ends -/

/-- A reader of a connection with the chunks `chunks₀` of which nothing was
    consumed, after peeks of at most `n` items.  Its buffer ends with a chunk,
    or it is full; and it was filled only while something was missing. -/
structure Filled (chunks₀ : List (Chunk α)) (size n : Nat) (b : Reader α (Chunked α)) : Prop where
  size_eq : b.size = size
  err : b.err = none
  le_size : b.buf.length ≤ size
  at_end : b.buf.length = 0 ∨ b.buf.length = size ∨ b.buf.length ∈ endsFrom 0 chunks₀
  ends_lt : ∀ p ∈ endsFrom 0 chunks₀, p < b.buf.length → p < n
  rest : ∀ x, b.buf.length < x →
    (x ∈ endsFrom b.buf.length b.src.chunks ↔ x ∈ endsFrom 0 chunks₀)

open Chunked

section
variable {chunks₀ : List (Chunk α)} {size n n' : Nat} {b : Reader α (Chunked α)}

theorem Filled.new (hsize : 16 ≤ size) (c : Chunked α) :
    Filled c.chunks size 0 (Reader.new size c) where
  size_eq := Nat.max_eq_left hsize
  err := rfl
  le_size := Nat.zero_le _
  at_end := inl rfl
  ends_lt := by simp [Reader.new]
  rest := fun _ _ => .rfl

theorem Filled.mono (h : Filled chunks₀ size n b) (hle : n ≤ n') : Filled chunks₀ size n' b :=
  { h with ends_lt := fun p hp hlt => Nat.lt_of_lt_of_le (h.ends_lt p hp hlt) hle }

/-- Ends of chunks in what a fill brings: only where the buffer ends then. -/
theorem Filled.ends_le (h : Filled chunks₀ size n b) {chunk : Chunk α} {later : List (Chunk α)}
    (hchunks : b.src.chunks = chunk :: later) {p : Nat} (hp : p ∈ endsFrom 0 chunks₀) :
    p ≤ b.buf.length ∨ b.buf.length + chunk.data.length ≤ p := by
  by_cases hle : p ≤ b.buf.length
  · exact inl hle
  · refine inr ?_
    have hmem := (h.rest p (by omega)).mpr hp
    rw [hchunks] at hmem
    rcases mem_cons.mp hmem with rfl | hlater
    · exact le_rfl
    · exact le_of_lt (lt_of_mem_endsFrom hlater)

/-- **One fill**: the buffer ends with the next chunk, or it is full. -/
theorem Filled.fill (h : Filled chunks₀ size n b) (hwants : b.Wants n)
    {chunk : Chunk α} {later : List (Chunk α)} (hchunks : b.src.chunks = chunk :: later) :
    Filled chunks₀ size n (b.fill source) ∧
      b.buf.length < (b.fill source).buf.length := by
  obtain ⟨hn, hsize, _⟩ := hwants
  have hsize_eq := h.size_eq
  have hpos := chunk.length_pos
  by_cases hroom : chunk.data.length ≤ b.size - b.buf.length
  · -- there is room for the whole chunk
    rw [Reader.fill_of_data (read_whole hchunks hroom) chunk.nonempty]
    have hmem : b.buf.length + chunk.data.length ∈ endsFrom 0 chunks₀ := by
      rw [← h.rest _ (by omega), hchunks]
      exact .head _
    refine ⟨⟨hsize_eq, h.err, ?_, ?_, ?_, ?_⟩, ?_⟩
    · simp only [length_append]
      omega
    · exact inr (inr (by simpa using hmem))
    · intro p hp hlt
      simp only [length_append] at hlt
      have := h.ends_le hchunks hp
      omega
    · intro x hx
      simp only [length_append] at hx ⊢
      rw [← h.rest x (by omega), hchunks, endsFrom, mem_cons]
      exact ⟨inr, fun h' => h'.resolve_left (by omega)⟩
    · simp only [length_append]
      omega
  · -- the chunk fills the buffer, and its rest stays in the connection
    have hpart := read_part hchunks (not_le.mp hroom)
    have hlen : (chunk.data.take (b.size - b.buf.length)).length = b.size - b.buf.length := by
      rw [length_take]
      omega
    have hdata : chunk.data.take (b.size - b.buf.length) ≠ [] := by
      rw [← length_pos_iff, hlen]
      omega
    rw [Reader.fill_of_data hpart hdata]
    have hfull : (b.buf ++ chunk.data.take (b.size - b.buf.length)).length = size := by
      rw [length_append, hlen]
      omega
    refine ⟨⟨hsize_eq, h.err, hfull.le, inr (inl hfull), ?_, ?_⟩, ?_⟩
    · intro p hp hlt
      rw [hfull] at hlt
      have := h.ends_le hchunks hp
      omega
    · intro x hx
      rw [hfull] at hx ⊢
      have hend : size + (chunk.data.drop (b.size - b.buf.length)).length =
          b.buf.length + chunk.data.length := by
        rw [length_drop]
        omega
      rw [← h.rest x (by omega), hchunks, endsFrom, endsFrom, hend]
    · rw [hfull]
      omega

/-- **Peeking** `n` items, when they are there. -/
theorem Filled.peekLoop (h : Filled chunks₀ size n' b) (hle : n ≤ n') {turns : Nat}
    (hn : n ≤ size) (henough : n ≤ (b.items source).length) (hturns : n ≤ b.buf.length + turns) :
    Filled chunks₀ size n' (b.peekLoop source n turns) ∧
      n ≤ (b.peekLoop source n turns).buf.length := by
  induction turns generalizing b with
  | zero => exact ⟨h, hturns⟩
  | succ turns ih =>
    by_cases hlen : b.buf.length < n
    · have hsize := h.size_eq
      have hwants : b.Wants n := ⟨hlen, by omega, h.err⟩
      rw [Reader.peekLoop_of_wants hwants]
      cases hchunks : b.src.chunks with
      | nil =>
        -- nothing is left, although items are missing
        simp [Reader.items, source, items, hchunks] at henough
        omega
      | cons chunk later =>
        obtain ⟨hfilled, hmore⟩ := h.fill ⟨by omega, hwants.2⟩ hchunks
        refine ih hfilled ?_ (by omega)
        rwa [Reader.fill, Reader.items_fillTries]
    · rw [Reader.peekLoop_of_not_wants fun hw => hlen hw.1]
      exact ⟨h, not_lt.mp hlen⟩

end

/-! ## Stacked readers

    A reader is stacked on another to peek more than the buffer of the other can
    hold.  Once the inner buffer has been taken over, a read of at least `size`
    items goes past it; a smaller one goes through it, and what the connection
    gives beyond what was asked for stays there. -/

/-- The reader that asks a connection with these chunks for `need` items, `size`
    of which fit the inner buffer, leaves nothing in the inner buffer: the chunk
    that completes them ends with them, or what is missing is read past the
    buffer. -/
def Clean (size : Nat) : Nat → List (Chunk α) → Prop
  | _, [] => True
  | need, chunk :: rest =>
    if chunk.data.length < need then Clean size (need - chunk.data.length) rest
    else chunk.data.length = need ∨ size ≤ need

section
variable {source : Source α σ} {b : Reader α σ} {n : Nat}

theorem Reader.read_large (hbuf : b.buf = []) (herr : b.err = none) (hn : n ≠ 0)
    (hsize : b.size ≤ n) :
    b.read source n = ((source.read n b.src).1, { b with src := (source.read n b.src).2 }) := by
  unfold Reader.read
  simp [hn, hbuf, herr, hsize]

theorem Reader.read_small (hbuf : b.buf = []) (herr : b.err = none) (hn : n ≠ 0)
    (hsize : n < b.size) {data : List α} {src : σ}
    (hread : source.read b.size b.src = ((data, none), src)) (hdata : data ≠ []) :
    b.read source n =
      ((data.take n, none), { b with buf := data.drop n, err := none, src }) := by
  unfold Reader.read
  rw [if_neg hn, if_pos hbuf, herr]
  simp only [not_le.mpr hsize, if_false]
  rw [hread]
  cases data with
  | nil => exact absurd rfl hdata
  | cons a as => rfl

end

section
variable {inner : Reader α (Chunked α)} {chunk : Chunk α} {rest : List (Chunk α)} {need : Nat}

/-- A chunk that is not larger than what is asked for is handed over. -/
theorem read_inner_whole (hbuf : inner.buf = []) (herr : inner.err = none) (hneed : need ≠ 0)
    (hchunks : inner.src.chunks = chunk :: rest) (hle : chunk.data.length ≤ need) :
    source.buffered.read need inner =
      ((chunk.data, none), { inner with src := { inner.src with chunks := rest } }) := by
  show inner.read source need = _
  by_cases hsize : inner.size ≤ need
  · have hread : source.read need inner.src = _ := read_whole hchunks hle
    rw [Reader.read_large hbuf herr hneed hsize, hread]
  · have hread : source.read inner.size inner.src = _ :=
      read_whole hchunks (by omega)
    rw [Reader.read_small hbuf herr hneed (not_le.mp hsize) hread chunk.nonempty,
      take_of_length_le hle, drop_of_length_le hle]
    simp [hbuf, herr]

/-- Of a larger chunk, what is asked for is handed over; the rest stays in the
    connection, or in the inner buffer if that is larger than what is asked for. -/
theorem read_inner_part (hbuf : inner.buf = []) (herr : inner.err = none) (hneed : need ≠ 0)
    (hchunks : inner.src.chunks = chunk :: rest) (hlt : need < chunk.data.length) :
    ∃ data inner', source.buffered.read need inner = ((data, none), inner') ∧
      data.length = need ∧ (inner'.buf = [] ↔ inner.size ≤ need) := by
  show ∃ data inner', inner.read source need = ((data, none), inner') ∧ _
  by_cases hsize : inner.size ≤ need
  · have hread : source.read need inner.src = _ := read_part hchunks hlt
    rw [Reader.read_large hbuf herr hneed hsize, hread]
    refine ⟨_, _, rfl, ?_, iff_of_true hbuf hsize⟩
    rw [length_take]
    omega
  · -- the inner reader fills its own buffer, with more than was asked for
    obtain ⟨data, c, hread, hlen⟩ : ∃ data c,
        source.read inner.size inner.src = ((data, none), c) ∧ need < data.length := by
      by_cases hwhole : chunk.data.length ≤ inner.size
      · exact ⟨_, _, read_whole hchunks hwhole, hlt⟩
      · refine ⟨_, _, read_part hchunks (not_le.mp hwhole), ?_⟩
        rw [length_take]
        omega
    have hdata : data ≠ [] := length_pos_iff.mp (by omega)
    rw [Reader.read_small hbuf herr hneed (not_le.mp hsize) hread hdata]
    refine ⟨_, _, rfl, ?_, iff_of_false ?_ hsize⟩
    · rw [length_take]
      omega
    · simpa using hlen

end

/-- **The loop of a stacked peek**, once the inner buffer has been taken over: it
    gets what is missing, if it is there, and the inner buffer is empty then
    exactly when the chunks are clean.  By induction on the chunks, one turn for
    each. -/
theorem stacked_peekLoop {outer : Reader α (Reader α (Chunked α))} {n need turns : Nat}
    (hchunks : outer.src.src.chunks = chunks)
    (hbuf : outer.src.buf = []) (herr : outer.src.err = none) (herr' : outer.err = none)
    (hneed : need ≠ 0) (hn : outer.buf.length + need = n) (hsize : outer.size = n)
    (hturns : need ≤ turns) (henough : need ≤ (chunks.flatMap Chunk.data).length) :
    (outer.peekLoop source.buffered n turns).buf.length = n ∧
      ((outer.peekLoop source.buffered n turns).src.buf = [] ↔
        Clean outer.src.size need chunks) := by
  induction chunks generalizing outer need turns with
  | nil =>
    simp at henough
    omega
  | cons chunk rest ih =>
    obtain ⟨turns, rfl⟩ : ∃ k, turns = k + 1 := ⟨turns - 1, by omega⟩
    have hwants : outer.Wants n := ⟨by omega, by omega, herr'⟩
    have hask : outer.size - outer.buf.length = need := by omega
    have hpos := chunk.length_pos
    rw [flatMap_cons, length_append] at henough
    rw [Reader.peekLoop_of_wants hwants]
    unfold Clean
    by_cases hle : chunk.data.length ≤ need
    · -- the inner buffer stays empty
      have hread := read_inner_whole hbuf herr hneed hchunks hle
      rw [← hask] at hread
      rw [Reader.fill_of_data hread chunk.nonempty]
      by_cases hlt : chunk.data.length < need
      · rw [if_pos hlt]
        apply ih
        · rfl
        · exact hbuf
        · exact herr
        · exact herr'
        · omega
        · rw [length_append]
          omega
        · exact hsize
        · omega
        · omega
      · have hfull : (outer.buf ++ chunk.data).length = n := by
          rw [length_append]
          omega
        rw [if_neg hlt, Reader.peekLoop_of_not_wants fun hw => hw.1.ne hfull]
        exact ⟨hfull, iff_of_true hbuf (.inl (by omega))⟩
    · -- the chunk has more than is missing
      obtain ⟨data, inner', hread, hdata, hempty⟩ :=
        read_inner_part hbuf herr hneed hchunks (not_le.mp hle)
      rw [← hask] at hread
      rw [Reader.fill_of_data hread (length_pos_iff.mp (by omega))]
      have hfull : (outer.buf ++ data).length = n := by
        rw [length_append]
        omega
      rw [if_neg (by omega), Reader.peekLoop_of_not_wants fun hw => hw.1.ne hfull, hempty]
      exact ⟨hfull, .inr, fun h => h.resolve_left (by omega)⟩

/-- Clean chunks by the places where they end: a chunk ends with what is asked
    for, or neither the beginning nor the end of a chunk is less than `size`
    items before. -/
theorem clean_iff {size pos n : Nat} (hpos : pos < n)
    (henough : n ≤ pos + (chunks.flatMap Chunk.data).length) :
    Clean size (n - pos) chunks ↔
      n ∈ endsFrom pos chunks ∨ ∀ p ∈ pos :: endsFrom pos chunks, p < n → p + size ≤ n := by
  induction chunks generalizing pos with
  | nil =>
    simp at henough
    omega
  | cons chunk rest ih =>
    have hlater : ∀ x ∈ endsFrom (pos + chunk.data.length) rest, pos + chunk.data.length < x :=
      fun x hx => lt_of_mem_endsFrom hx
    rw [flatMap_cons, length_append] at henough
    unfold Clean endsFrom
    by_cases hlt : chunk.data.length < n - pos
    · -- a chunk that ends before `n` is the beginning of the next
      rw [if_pos hlt, Nat.sub_sub, ih (by omega) (by omega)]
      rw [forall_mem_cons, forall_mem_cons, forall_mem_cons, mem_cons]
      constructor
      · rintro (hmem | ⟨hchunk', hall⟩)
        · exact .inl (.inr hmem)
        · exact .inr ⟨by omega, hchunk', hall⟩
      · rintro ((heq | hmem) | ⟨_, hchunk', hall⟩)
        · omega
        · exact .inl hmem
        · exact .inr ⟨hchunk', hall⟩
    · -- this chunk completes what is asked for
      rw [if_neg hlt]
      rw [forall_mem_cons, forall_mem_cons, mem_cons]
      constructor
      · rintro (heq | hsize)
        · exact .inl (.inl (by omega))
        · refine .inr ⟨by omega, by omega, fun p hp hpn => ?_⟩
          have := hlater p hp
          omega
      · rintro ((heq | hmem) | ⟨hsize, _⟩)
        · exact .inl (by omega)
        · have := hlater n hmem
          omega
        · exact .inr (by have := hsize hpos; omega)

/-- What is in the buffer is handed over first. -/
theorem Reader.read_buffered {src : Source α σ} {b : Reader α σ} {n : Nat} (hbuf : b.buf ≠ [])
    (hle : b.buf.length ≤ n) : b.read src n = ((b.buf, none), { b with buf := [] }) := by
  have hn : n ≠ 0 := by
    have := length_pos_iff.mpr hbuf
    omega
  unfold Reader.read
  rw [if_neg hn, if_neg hbuf, take_of_length_le hle, drop_of_length_le hle]

section
variable {chunks₀ : List (Chunk α)} {inner : Reader α (Chunked α)} {size k n : Nat}

/-- The places where a reader that takes over a filled buffer stops before `n`,
    by the ends of the chunks. -/
theorem Filled.stops_iff (h : Filled chunks₀ size k inner) (hk : k ≤ inner.buf.length)
    (hk₀ : k ≠ 0) (hn : size < n) :
    (∀ p ∈ inner.buf.length :: endsFrom inner.buf.length inner.src.chunks,
      p < n → p + size ≤ n) ↔
    (∀ p ∈ endsFrom 0 chunks₀, p < n → p + size ≤ n) ∧
      (size + size ≤ n ∨ ∃ p ∈ endsFrom 0 chunks₀, k ≤ p ∧ p ≤ size) := by
  have hle := h.le_size
  rw [forall_mem_cons]
  constructor
  · intro ⟨hbuf, hall⟩
    refine ⟨fun p hp hpn => ?_, ?_⟩
    · by_cases hlater : inner.buf.length < p
      · exact hall p ((h.rest p hlater).mpr hp) hpn
      · omega
    · rcases h.at_end with hzero | hfull | hmem
      · omega
      · omega
      · exact .inr ⟨_, hmem, hk, hle⟩
  · intro ⟨hall, hfirst⟩
    refine ⟨fun hlt => ?_, fun p hp hpn => ?_⟩
    · rcases h.at_end with hzero | hfull | hmem
      · omega
      · rcases hfirst with hlarge | ⟨p, hp, hkp, hpsize⟩
        · omega
        · -- a chunk that ends in a full buffer, after the `k` items, ends with it
          by_cases hpfull : p = inner.buf.length
          · exact hall _ (hpfull ▸ hp) hlt
          · have := h.ends_lt p hp (by omega)
            omega
      · exact hall _ hmem hlt
    · have hlater := lt_of_mem_endsFrom hp
      exact hall p ((h.rest p hlater).mp hp) hpn

/-- **Stacked readers**: a peek of `n` items, more than the inner buffer can hold,
    through a reader that is stacked on one that was filled for a peek of `k`,
    leaves the inner buffer empty exactly when a chunk ends with the `n` items, or
    no chunk ends in the `size - 1` items before and the first fill did not
    either. -/
theorem stacked_clean_iff (h : Filled chunks₀ size k inner) (hk : k ≤ inner.buf.length)
    (hk₀ : k ≠ 0) (hn : size < n) (hn₁₆ : 16 ≤ n) (henough : n ≤ (inner.items source).length) :
    ((Reader.new n inner).peekLoop source.buffered n n).buf.length = n ∧
    (((Reader.new n inner).peekLoop source.buffered n n).src.buf = [] ↔
      n ∈ endsFrom 0 chunks₀ ∨
      (∀ p ∈ endsFrom 0 chunks₀, p < n → p + size ≤ n) ∧
        (size + size ≤ n ∨ ∃ p ∈ endsFrom 0 chunks₀, k ≤ p ∧ p ≤ size)) := by
  have hle := h.le_size
  have hbuf : inner.buf ≠ [] := length_pos_iff.mp (by omega)
  replace henough : n ≤ inner.buf.length + (inner.src.chunks.flatMap Chunk.data).length := by
    simpa [Reader.items, source, items] using henough
  rw [← h.rest n (by omega), ← h.stops_iff hk hk₀ hn, ← clean_iff (by omega) henough]
  -- the first turn takes over the inner buffer
  have hsize : (Reader.new n inner : Reader α _).size = n := Nat.max_eq_left hn₁₆
  have hempty : (Reader.new n inner : Reader α _).buf.length = 0 := rfl
  have hwants : (Reader.new n inner : Reader α _).Wants n := ⟨by omega, by omega, rfl⟩
  have hroom : (Reader.new n inner : Reader α _).size -
      (Reader.new n inner : Reader α _).buf.length = n := by omega
  have hread : source.buffered.read n inner =
      ((inner.buf, none), { inner with buf := [] }) :=
    Reader.read_buffered hbuf (by omega)
  rw [← hroom] at hread
  have hfirst : (Reader.new n inner).peekLoop source.buffered n (n - 1 + 1) = _ :=
    Reader.peekLoop_of_wants hwants (n - 1)
  rw [Nat.sub_add_cancel (by omega), Reader.fill_of_data hread hbuf] at hfirst
  rw [hfirst, ← h.size_eq]
  apply stacked_peekLoop
  · rfl
  · rfl
  · exact h.err
  · rfl
  · omega
  · simp only [Reader.new, nil_append]
    omega
  · exact hsize
  · omega
  · omega

end

end Bufio
