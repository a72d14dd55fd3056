import Mathlib.Tactic

/-! # Transducers

    A machine that reads its input item by item and writes some output for each
    item, or refuses it.  Lexers and tokenizers are of this form.

    * `scan`: the output for a part of the input, and the state after it.
    * `run`: the output for a whole input.
    * `run_append`: what a part of the input contributes depends only on the state
      before it. -/

/-- A transducer: one item, and the end of the input. -/
structure Transducer (σ : Type u) (α : Type v) (β : Type w) where
  step : σ → α → Option (σ × List β)
  finish : σ → Option (List β)

namespace Transducer

variable {σ : Type u} {α : Type v} {β : Type w}

/-- The output for a part of the input, and the state after it. -/
def scan (t : Transducer σ α β) (s : σ) : List α → Option (σ × List β)
  | [] => some (s, [])
  | a :: input =>
    (t.step s a).bind fun (s', out) => (t.scan s' input).map fun (s'', rest) => (s'', out ++ rest)

/-- The output for a whole input. -/
def run (t : Transducer σ α β) (s : σ) (input : List α) : Option (List β) :=
  (t.scan s input).bind fun (s', out) => (t.finish s').map (out ++ ·)

variable {t : Transducer σ α β} {s s' : σ} {input : List α} {out : List β}

theorem scan_cons {a : α} {rest : List β} {s'' : σ} (hstep : t.step s a = some (s', out))
    (hscan : t.scan s' input = some (s'', rest)) :
    t.scan s (a :: input) = some (s'', out ++ rest) := by
  simp [scan, hstep, hscan]

theorem scan_append (input' : List α) (h : t.scan s input = some (s', out)) :
    t.scan s (input ++ input') =
      (t.scan s' input').map fun (s'', rest) => (s'', out ++ rest) := by
  induction input generalizing s out with
  | nil =>
    obtain ⟨rfl, rfl⟩ : s = s' ∧ [] = out := by simpa [scan] using h
    cases hscan : t.scan s input' <;> simp [hscan]
  | cons a input ih =>
    simp only [scan, Option.bind_eq_some_iff, Option.map_eq_some_iff] at h
    obtain ⟨⟨s₁, out₁⟩, hstep, ⟨⟨s₂, out₂⟩, hscan, heq⟩⟩ := h
    cases heq
    simp only [List.cons_append, scan, hstep, Option.bind_some, ih hscan]
    cases t.scan s₂ input' <;> simp

/-- A part of the input after another one. -/
theorem scan_append_some {input' : List α} {s'' : σ} {out' : List β}
    (h : t.scan s input = some (s', out)) (h' : t.scan s' input' = some (s'', out')) :
    t.scan s (input ++ input') = some (s'', out ++ out') := by
  rw [scan_append input' h, h']
  rfl

/-- **The rest of the input** after a part of it. -/
theorem run_append (input' : List α) (h : t.scan s input = some (s', out)) :
    t.run s (input ++ input') = (t.run s' input').map (out ++ ·) := by
  unfold run
  rw [scan_append input' h]
  cases t.scan s' input' with
  | none => rfl
  | some part => cases hfinish : t.finish part.1 <;> simp [hfinish]

theorem run_of_scan {last : List β} (h : t.scan s input = some (s', out))
    (hfinish : t.finish s' = some last) : t.run s input = some (out ++ last) := by
  simp [run, h, hfinish]

end Transducer
