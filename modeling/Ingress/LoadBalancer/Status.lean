import Mathlib.Data.Finset.Card

/-! # Status Maps of the Balancers

    Every balancer records which of its children are up in a map from child
    names to the empty struct.  The three `SetStatus` methods (`wrr`, `hrw` and
    the TCP balancer) treat it alike: they record the child, and they call the
    registered updaters only when the balancer itself goes up or down. -/

namespace Ingress

/-- The names of the children that are up (`map[string]struct{}`). -/
abbrev StatusMap := Finset String

namespace StatusMap

/-- A balancer is up when some child is. -/
def up (status : StatusMap) : Bool :=
  0 < status.card

/-- The child is recorded as up. -/
def holds (status : StatusMap) (childName : String) : Bool :=
  childName ∈ status

/-- `Add` of the HTTP balancers, as far as the map is concerned: a child of
    non-positive weight is ignored.  A missing weight is 1. -/
def add (status : StatusMap) (childName : String) (weight : Option Int) : StatusMap :=
  if weight.getD 1 ≤ 0 then status else insert childName status

/-- Record that `childName` is now up or down. -/
def record (status : StatusMap) (childName : String) (up : Bool) : StatusMap :=
  if up then insert childName status else status.erase childName

/-- `SetStatus`: the new map, and the value the updaters are called with, if
    they are called at all. -/
def setStatus (status : StatusMap) (childName : String) (up : Bool) : StatusMap × Option Bool :=
  let status' := status.record childName up
  (status', if status.up = status'.up then none else some status'.up)

/-- Record a list of changes, one after another. -/
def recordAll (status : StatusMap) (changes : List (String × Bool)) : StatusMap :=
  changes.foldl (fun status change => status.record change.1 change.2) status

variable {status : StatusMap}

@[simp] theorem up_eq_true : status.up = true ↔ status.Nonempty := by
  simp [up, Finset.card_pos]

@[simp] theorem mem_add {child name : String} {wt : Option Int} :
    name ∈ status.add child wt ↔
      (name = child ∧ 0 < wt.getD 1) ∨ name ∈ status := by
  unfold add
  split
  · next h => simp [not_lt.mpr h]
  · next h => simp [not_le.mp h]

@[simp] theorem mem_record {child name : String} {up : Bool} :
    name ∈ status.record child up ↔
      if name = child then up = true else name ∈ status := by
  unfold record
  cases up <;> by_cases h : name = child <;> simp [h]

@[simp] theorem holds_eq_true {child : String} : status.holds child = true ↔ child ∈ status := by
  simp [holds]

theorem holds_record (status : StatusMap) (child name : String) (up : Bool) :
    (status.record child up).holds name =
      if name = child then up else status.holds name := by
  rw [Bool.eq_iff_iff]
  split <;> simp [*]

/-- The last change of a name decides. -/
theorem holds_recordAll (name : String) (changes : List (String × Bool)) :
    (status.recordAll changes).holds name =
      (changes.reverse.lookup name).getD (status.holds name) := by
  induction changes using List.reverseRecOn with
  | nil => rfl
  | append_singleton changes change ih =>
    obtain ⟨child, up⟩ := change
    rw [recordAll, List.foldl_append, List.reverse_append]
    by_cases hname : name = child
    · simp [holds_record, hname]
    · simpa [recordAll, holds_record, hname, List.lookup_cons, beq_false_of_ne hname] using ih

end StatusMap

end Ingress
