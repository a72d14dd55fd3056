import Mathlib.Tactic

/-! # Stream Encoders

    An encoder takes its input in parts and emits output as it goes: at every part,
    at a flush, and when it is closed.  How much it holds back in between is its own
    business; it is lossless when the output, once it is closed, decodes to the input.

    * `after`: the state and the output after some parts and flushes.
    * `StreamEncoder`: closed, the output decodes to the content. -/

/-- What an encoder is fed with. -/
inductive Feed (α : Type u) where
  | write (p : List α)
  | flush

namespace Feed

/-- The input. -/
def content {α : Type u} (feeds : List (Feed α)) : List α :=
  feeds.flatMap fun
    | .write p => p
    | .flush => []

variable {α : Type u} (feeds : List (Feed α))

@[simp] theorem content_nil : content ([] : List (Feed α)) = [] := rfl

@[simp] theorem content_write (p : List α) : content (.write p :: feeds) = p ++ content feeds := rfl

@[simp] theorem content_flush : content (.flush :: feeds) = content feeds := rfl

@[simp] theorem content_append (feeds' : List (Feed α)) :
    content (feeds ++ feeds') = content feeds ++ content feeds' := by
  simp [content]

end Feed

/-- An encoder that may lose something. -/
structure RawEncoder (α : Type u) where
  State : Type
  init : State
  write : State → List α → State × List α
  flush : State → State × List α
  close : State → List α

namespace RawEncoder

variable {α : Type u} (e : RawEncoder α)

/-- One part or flush. -/
def feed (now : e.State × List α) : Feed α → e.State × List α
  | .write p => ((e.write now.1 p).1, now.2 ++ (e.write now.1 p).2)
  | .flush => ((e.flush now.1).1, now.2 ++ (e.flush now.1).2)

/-- The state and the output after some parts and flushes. -/
def after (feeds : List (Feed α)) : e.State × List α :=
  feeds.foldl e.feed (e.init, [])

theorem after_snoc (feeds : List (Feed α)) (f : Feed α) :
    e.after (feeds ++ [f]) = e.feed (e.after feeds) f := by
  simp [after]

/-- The output of an encoder that is closed. -/
def closed (now : e.State × List α) : List α :=
  now.2 ++ e.close now.1

end RawEncoder

/-- A lossless encoder. -/
structure StreamEncoder (α : Type u) extends RawEncoder α where
  decode : List α → Option (List α)
  lossless : ∀ feeds, decode (toRawEncoder.closed (toRawEncoder.after feeds)) =
    some (Feed.content feeds)

/-- The raw encoder that passes its input on. -/
def RawEncoder.identity (α : Type u) : RawEncoder α where
  State := Unit
  init := ()
  write _ p := ((), p)
  flush _ := ((), [])
  close _ := []

theorem RawEncoder.identity_closed {α : Type u} (feeds : List (Feed α)) :
    (identity α).closed ((identity α).after feeds) = Feed.content feeds := by
  have hfold : ∀ out : List α,
      (feeds.foldl (identity α).feed ((), out)).2 = out ++ Feed.content feeds := by
    induction feeds with
    | nil => simp
    | cons f feeds ih =>
      intro out
      cases f <;> simp [feed, identity] at ih ⊢ <;> simp [ih]
  show (feeds.foldl (identity α).feed ((), [])).2 ++ [] = _
  rw [List.append_nil, hfold, List.nil_append]

/-- The lossless encoder that passes its input on. -/
def StreamEncoder.identity (α : Type u) : StreamEncoder α where
  toRawEncoder := .identity α
  decode := some
  lossless feeds := congrArg some (RawEncoder.identity_closed feeds)
