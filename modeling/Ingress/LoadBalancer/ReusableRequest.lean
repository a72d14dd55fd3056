import Mathlib.Tactic

/-! # Reusable Requests

    `NewReusableRequest` and `Clone` of `pkg/server/service/loadbalancer/mirror`, which
    mirroring, failover and retry use to send one request more than once.  A body is
    what its stream still holds, and reading it does not fail.

    * `newReusableRequest`, `clone`: the code.
    * `Clones`: clones of one request, read a few bytes at a time in any order.
    * `newReusableRequest_preserves_iff`: when the body is preserved. -/

open Int64 List

namespace Ingress.ReusableRequest

/-! ## The code -/

/-- A request: what is left of its body, if it has one, and the declared length. -/
structure Request where
  body : Option (List UInt8)
  contentLength : Int
  deriving DecidableEq, Repr

/-- `ReusableRequest`. -/
structure Reusable where
  req : Request
  body : Option (List UInt8)
  deriving DecidableEq, Repr

inductive Error where
  | nilRequest
  | bodyTooLarge
  | eof
  deriving DecidableEq, Repr

/-- What a call comes to.  An error comes with the bytes consumed, where the code
    returns them, and with what is left of the stream. -/
inductive Outcome where
  | reusable (rr : Reusable)
  | failed (err : Error) (consumed rest : List UInt8)
  | panic
  deriving DecidableEq, Repr

/-- `NewReusableRequest`.  A slice of a negative length, or of one above `maxAlloc`,
    cannot be made. -/
def newReusableRequest (maxAlloc : Nat) (req : Option Request) (maxBodySize : Int64) : Outcome :=
  match req with
  | none => .failed .nilRequest [] []
  | some ⟨none, contentLength⟩ => .reusable ⟨⟨none, contentLength⟩, none⟩
  | some ⟨some b, contentLength⟩ =>
    if contentLength = 0 then .reusable ⟨⟨some b, contentLength⟩, none⟩
    -- unbounded body size
    else if maxBodySize < 0 then .reusable ⟨⟨some [], contentLength⟩, some b⟩
    else if maxBodySize + 1 < 0 ∨ maxAlloc < (maxBodySize + 1).toInt then .panic
    -- `io.ReadFull`: `io.EOF` when nothing is read, `io.ErrUnexpectedEOF` when too little is
    else if (maxBodySize + 1).toInt ≤ b.length then
      .failed .bodyTooLarge (b.take (maxBodySize + 1).toInt.toNat)
        (b.drop (maxBodySize + 1).toInt.toNat)
    else if b = [] then .failed .eof [] []
    else .reusable ⟨⟨some [], contentLength⟩, some b⟩

/-- Clones of one request.  `Clone` gives each a reader of its own when the body is kept,
    and otherwise they all have the reader of the request. -/
structure Clones (ι : Type) where
  shared : List UInt8
  own : ι → Option (List UInt8)

/-- `Clone`, once for each `i`. -/
def clone (rr : Reusable) (ι : Type) : Clones ι where
  shared := rr.req.body.getD []
  own := fun _ => rr.body

open Clones

section
variable {ι : Type} [DecidableEq ι]

/-- What clone `i` still has to read. -/
def Clones.rest (cs : Clones ι) (i : ι) : List UInt8 :=
  (cs.own i).getD cs.shared

/-- `Read` of at most `n` bytes of the body of clone `i`. -/
def Clones.read (cs : Clones ι) (i : ι) (n : Nat) : Clones ι :=
  match cs.own i with
  | some b => { cs with own := Function.update cs.own i (some (b.drop n)) }
  | none => { cs with shared := cs.shared.drop n }

/-- The bytes clone `i` reads in a sequence of reads, and the clones after it. -/
def Clones.yields (cs : Clones ι) (i : ι) : List (ι × Nat) → List UInt8 × Clones ι
  | [] => ([], cs)
  | (j, n) :: reads =>
    let (bytes, cs') := (cs.read j n).yields i reads
    (if j = i then (cs.rest i).take n ++ bytes else bytes, cs')

/-! ## Independent clones -/

/-- What each clone reads and what it has left make up `b`: either it has a reader of
    its own, or there is nothing to read. -/
theorem Clones.yields_rest {cs : Clones ι} {b : List UInt8}
    (h : ∀ i, (cs.own i).isSome ∨ cs.shared = []) (i : ι) (hi : cs.rest i = b)
    (reads : List (ι × Nat)) : (cs.yields i reads).1 ++ (cs.yields i reads).2.rest i = b := by
  induction reads generalizing cs b with
  | nil => exact hi
  | cons jn reads ih =>
    obtain ⟨j, n⟩ := jn
    cases hown : cs.own j with
    | none =>
      have hshared : cs.shared = [] := by simpa [hown] using h j
      have hread : cs.read j n = cs := by cases cs; simp_all [read]
      have hnil : j = i → cs.rest i = [] := by rintro rfl; simp [rest, hown, hshared]
      simp only [yields, hread]
      split
      · next hji => rw [hnil hji, take_nil, nil_append]; exact ih h hi
      · exact ih h hi
    | some bytes =>
      have hread : cs.read j n = { cs with own := Function.update cs.own j (some (bytes.drop n)) } := by
        simp only [read, hown]
      have hinv : ∀ k, ((cs.read j n).own k).isSome ∨ (cs.read j n).shared = [] := by
        intro k
        rw [hread]
        by_cases hk : k = j
        · simp [hk]
        · simpa [Function.update_of_ne hk] using h k
      simp only [yields]
      split
      · next hji =>
        subst hji
        have hb : bytes = b := by simpa [rest, hown] using hi
        have hrest : (cs.read j n).rest j = b.drop n := by simp [rest, hread, hb]
        rw [append_assoc, ih hinv hrest, hi, take_append_drop]
      · next hji =>
        apply ih hinv
        simpa [rest, hread, Function.update_of_ne (Ne.symm hji)] using hi

end

/-! ## The body is preserved -/

/-- Clones of `rr`, however they are read, each read exactly `b`. -/
def Reusable.Yields (rr : Reusable) (b : List UInt8) : Prop :=
  ∀ (ι : Type) [DecidableEq ι] (i : ι) (reads : List (ι × Nat)),
    ((clone rr ι).yields i reads).1 ++ ((clone rr ι).yields i reads).2.rest i = b

/-- The body is kept when it fits, and otherwise handed back. -/
def Preserves (b : List UInt8) (maxBodySize : Int64) (outcome : Outcome) : Prop :=
  if maxBodySize < 0 ∨ b.length ≤ maxBodySize.toInt then
    ∃ rr, outcome = .reusable rr ∧ rr.Yields b
  else ∃ consumed rest, outcome = .failed .bodyTooLarge consumed rest ∧ consumed ++ rest = b

theorem yields_own (req : Request) (b : List UInt8) : Reusable.Yields ⟨req, some b⟩ b :=
  fun _ _ i => yields_rest (fun _ => .inl rfl) i rfl

theorem yields_nil (contentLength : Int) : Reusable.Yields ⟨⟨some [], contentLength⟩, none⟩ [] :=
  fun _ _ i => yields_rest (fun _ => .inr rfl) i rfl

theorem toInt_add_one {m : Int64} (h : ¬ m + 1 < 0) (hm : ¬ m < 0) :
    (m + 1).toInt = m.toInt + 1 := by
  have hlt : m.toInt < 2 ^ 63 := m.toInt_lt
  rw [lt_iff_toInt_lt, toInt_zero, toInt_add] at *
  rw [Int.bmod_def] at *
  simp at *
  omega

/-- For a body `b` of declared or unknown length: the body is preserved exactly when the
    size is not bounded, or the buffer can be made and the body is not an empty one of
    unknown length. -/
theorem newReusableRequest_preserves_iff (maxAlloc : Nat) (b : List UInt8) (contentLength : Int)
    (hlen : contentLength = b.length ∨ contentLength = -1) (m : Int64) :
    Preserves b m (newReusableRequest maxAlloc (some ⟨some b, contentLength⟩) m) ↔
      contentLength = 0 ∨ m < 0 ∨
        ¬ (m + 1 < 0 ∨ maxAlloc < (m + 1).toInt) ∧ b ≠ [] := by
  simp only [newReusableRequest]
  by_cases hzero : contentLength = 0
  · obtain rfl : b = [] := by
      apply List.length_eq_zero_iff.mp
      omega
    have hfits : m < 0 ∨ (([] : List UInt8).length : Int) ≤ m.toInt := by
      rw [lt_iff_toInt_lt]
      exact lt_or_ge m.toInt 0
    rw [if_pos hzero, Preserves, if_pos hfits]
    exact iff_of_true ⟨_, rfl, yields_nil contentLength⟩ (.inl hzero)
  by_cases hneg : m < 0
  · rw [if_neg hzero, if_pos hneg, Preserves, if_pos (.inl hneg)]
    exact iff_of_true ⟨_, rfl, yields_own _ b⟩ (.inr (.inl hneg))
  rw [if_neg hzero, if_neg hneg]
  by_cases halloc : m + 1 < 0 ∨ maxAlloc < (m + 1).toInt
  · refine iff_of_false ?_ (by tauto)
    rw [Preserves]
    split <;> simp
  have hsucc := toInt_add_one (fun h => halloc (.inl h)) hneg
  have hnonneg : 0 ≤ m.toInt := by simpa [lt_iff_toInt_lt] using hneg
  rw [if_neg halloc]
  by_cases hlarge : (m + 1).toInt ≤ b.length
  · -- one byte more than allowed was there
    have hne : b ≠ [] := by
      rintro rfl
      rw [hsucc, List.length_nil] at hlarge
      omega
    have hnot : ¬ (m < 0 ∨ (b.length : Int) ≤ m.toInt) := by
      intro h
      have := h.resolve_left hneg
      omega
    rw [if_pos hlarge, Preserves, if_neg hnot]
    exact iff_of_true ⟨_, _, rfl, List.take_append_drop _ _⟩ (.inr (.inr ⟨halloc, hne⟩))
  · have hfits : m < 0 ∨ (b.length : Int) ≤ m.toInt := .inr (by omega)
    rw [if_neg hlarge, Preserves, if_pos hfits]
    by_cases hb : b = []
    · simp [hb, hzero, hneg]
    · rw [if_neg hb]
      exact iff_of_true ⟨_, rfl, yields_own _ b⟩ (.inr (.inr ⟨halloc, hb⟩))

theorem newReusableRequest_preserves_hello :
    Preserves [104, 105] 2 (newReusableRequest (2 ^ 48) (some ⟨some [104, 105], -1⟩) 2) :=
  (newReusableRequest_preserves_iff _ _ _ (by decide) _).mpr (by decide)

/-- An empty body of unknown length is refused with `io.EOF`, and the greatest size panics. -/
theorem newReusableRequest_fails :
    newReusableRequest (2 ^ 48) (some ⟨some [], -1⟩) 1024 = .failed .eof [] [] ∧
      newReusableRequest (2 ^ 48) (some ⟨some [104], 1⟩) maxValue = .panic := by
  decide

end Ingress.ReusableRequest
