import Ingress.Framework.System

/-! # Pipes

    A queue between one producer and its consumers.  A request takes the first item and is
    answered with what it makes of it; the consumer returns some time after it has its answer, so
    that consumers which overlap may return in another order.

    * `answers_in_order`: the requests are answered with the pushed items, in order.
    * `returns_in_order`: so the consumers return, when each asks after the one before has
      returned. -/

namespace Pipe

open List LTS

variable {α : Type u} {β : Type v} {γ : Type w}

/-- A queue and its history, oldest first. -/
structure Line (α : Type u) (β : Type v) (γ : Type w) where
  pushed : List α
  asked : List β
  answered : List γ
  returned : List γ
  queue : List α
  /-- The answer to the last request, when it has not been given. -/
  pending : Option γ
  /-- The answers of the consumers that have not returned. -/
  returning : List γ

/-- What can happen to a pipe. -/
inductive Act (α : Type u) (β : Type v) (γ : Type w) where
  | push (a : α)
  | ask (b : β)
  | answer
  | giveBack (c : γ)

/-- The new pipe. -/
def empty : Line α β γ where
  pushed := []
  asked := []
  answered := []
  returned := []
  queue := []
  pending := none
  returning := []

/-- The pipe as a transition system, in which a request `b` makes `f b a` of an item `a`. -/
def pipe [BEq γ] (f : β → α → γ) : System (Line α β γ) (Act α β γ) where
  init := fun p => p = empty
  step := fun p act p' =>
    match act with
    | .push a => p' = { p with pushed := p.pushed ++ [a], queue := p.queue ++ [a] }
    | .ask b =>
        ∃ a rest, p.queue = a :: rest ∧ p.pending = none ∧
        p' = { p with asked := p.asked ++ [b], queue := rest, pending := some (f b a) }
    | .answer =>
        ∃ c, p.pending = some c ∧
        p' = { p with
          answered := p.answered ++ [c], pending := none, returning := c :: p.returning }
    | .giveBack c =>
        c ∈ p.returning ∧
        p' = { p with returned := p.returned ++ [c], returning := p.returning.erase c }

variable [BEq γ] {f : β → α → γ} {p p' : Line α β γ} {act : Act α β γ}

/-! ## Answers -/

/-- The items that have left the queue made the answers, one item for each request. -/
structure Ordered (f : β → α → γ) (p : Line α β γ) (taken : List α) : Prop where
  pushed : p.pushed = taken ++ p.queue
  asked : p.asked.length = taken.length
  answered : List.zipWith f p.asked taken = p.answered ++ p.pending.toList

theorem Ordered.step {taken : List α} (h : Ordered f p taken) (hstep : (pipe f).step p act p') :
    ∃ taken', Ordered f p' taken' := by
  match act with
  | .push a =>
    obtain rfl := hstep
    refine ⟨taken, ?_, h.asked, h.answered⟩
    show p.pushed ++ [a] = taken ++ (p.queue ++ [a])
    rw [h.pushed, append_assoc]
  | .ask b =>
    obtain ⟨a, rest, hqueue, hpend, rfl⟩ := hstep
    refine ⟨taken ++ [a], ?_, ?_, ?_⟩
    · show p.pushed = taken ++ [a] ++ rest
      rw [h.pushed, hqueue, append_assoc, singleton_append]
    · simp only [length_append, h.asked, length_singleton]
    · have hans := h.answered
      rw [hpend, Option.toList_none, append_nil] at hans
      show zipWith f (p.asked ++ [b]) (taken ++ [a]) = p.answered ++ [f b a]
      rw [zipWith_append h.asked, hans, zipWith_cons_cons, zipWith_nil_left]
  | .answer =>
    obtain ⟨c, hpend, rfl⟩ := hstep
    refine ⟨taken, h.pushed, h.asked, ?_⟩
    show zipWith f p.asked taken = p.answered ++ [c] ++ []
    rw [h.answered, hpend, append_nil, Option.toList_some]
  | .giveBack c =>
    obtain ⟨-, rfl⟩ := hstep
    exact ⟨taken, h.pushed, h.asked, h.answered⟩

theorem ordered_of_reachable (h : (pipe f).Reachable p) : ∃ taken, Ordered f p taken := by
  refine System.invariant (fun p => ∃ taken, Ordered f p taken) ?_ ?_ h
  · intro p hp
    rw [hp]
    exact ⟨[], rfl, rfl, rfl⟩
  · intro p act p' ⟨taken, hordered⟩ hstep
    exact hordered.step hstep

/-- **Order**: request by request, the answers are made of the pushed items. -/
theorem answers_in_order (h : (pipe f).Reachable p) :
    p.answered <+: zipWith f p.asked p.pushed := by
  obtain ⟨taken, hordered⟩ := ordered_of_reachable h
  -- what is still in the queue meets no request
  have htaken : zipWith f p.asked p.pushed = zipWith f p.asked taken := by
    have hzip : zipWith f (p.asked ++ []) (taken ++ p.queue) =
        zipWith f p.asked taken ++ zipWith f [] p.queue := zipWith_append hordered.asked
    rwa [append_nil, zipWith_nil_left, append_nil, ← hordered.pushed] at hzip
  rw [htaken, hordered.answered]
  exact prefix_append ..

/-! ## Consumers that do not overlap -/

/-- A consumer asks when the one before has returned. -/
def Alone (p : Line α β γ) : Act α β γ → Prop
  | .ask _ => p.returning = []
  | _ => True

/-- One consumer at a time: it waits for its answer, or is about to return. -/
structure Turns (p : Line α β γ) : Prop where
  answered : p.answered = p.returned ++ p.returning
  waits : p.pending ≠ none → p.returning = []
  one : p.returning.length ≤ 1

theorem Turns.step [LawfulBEq γ] (h : Turns p) (halone : Alone p act) (hstep : (pipe f).step p act p') :
    Turns p' := by
  match act with
  | .push a =>
    obtain rfl := hstep
    exact ⟨h.answered, h.waits, h.one⟩
  | .ask b =>
    obtain ⟨a, rest, -, -, rfl⟩ := hstep
    exact ⟨h.answered, fun _ => halone, h.one⟩
  | .answer =>
    obtain ⟨c, hpend, rfl⟩ := hstep
    have hnone : p.returning = [] := h.waits (by rw [hpend]; exact Option.some_ne_none c)
    have hans := h.answered
    rw [hnone, append_nil] at hans
    refine ⟨?_, fun hne => absurd rfl hne, ?_⟩
    · show p.answered ++ [c] = p.returned ++ c :: p.returning
      rw [hans, hnone]
    · show (c :: p.returning).length ≤ 1
      rw [hnone]
      exact Nat.le_refl 1
  | .giveBack c =>
    obtain ⟨hmem, rfl⟩ := hstep
    have hreturning : p.returning = [c] := by
      obtain ⟨c', hc'⟩ := length_eq_one_iff.mp
        (Nat.le_antisymm h.one (length_pos_of_mem hmem))
      rw [hc'] at hmem ⊢
      rw [mem_singleton.mp hmem]
    have herase : p.returning.erase c = [] := by
      rw [hreturning, erase_cons_head]
    refine ⟨?_, fun _ => herase, ?_⟩
    · show p.answered = p.returned ++ [c] ++ p.returning.erase c
      rw [herase, append_nil, h.answered, hreturning]
    · show (p.returning.erase c).length ≤ 1
      rw [herase]
      exact Nat.zero_le 1

/-- **Returns**: consumers that do not overlap return in order. -/
theorem returns_in_order [LawfulBEq γ] (h : ((pipe f).restrict Alone).Reachable p) :
    p.returned <+: zipWith f p.asked p.pushed := by
  have hturns : Turns p := by
    refine System.invariant Turns ?_ ?_ h
    · intro p hp
      rw [show p = empty from hp]
      exact ⟨rfl, fun _ => rfl, Nat.zero_le 1⟩
    · intro p act p' hturns hstep
      exact hturns.step hstep.1 hstep.2
  refine .trans ?_ (answers_in_order h.of_restrict)
  rw [hturns.answered]
  exact prefix_append ..

end Pipe
