import Ingress.Framework.Since
import Ingress.Middleware.Retry

/-! # The Calls that Reach the Client

    Which calls of an attempt reach the client is decided by a flag that three things set: the
    status, the callbacks, and their order.  Here it is told by the places of the calls.

    * `Policy.Pending`, `Policy.Sent`: whether a retry is pending and the header sent, after some
      calls.
    * `Policy.Reaches`: the calls that reach the client.
    * `Tracks`: the writer of an attempt follows them.
    * `Tracks.run_uncommitted`, `Tracks.run_committed`: what the client has after an attempt. -/

open Past List

namespace Ingress.Retry

open Http Failover

/-! ## The places of the calls -/

/-- The status of the call is to be retried. -/
def Policy.retried (p : Policy) (e : Event) : Bool :=
  e.isFinal && p.retries e.code e.elapsed

/-- A callback that allows a retry, or one that does not. -/
def Policy.callback (p : Policy) (allowed : Bool) (e : Event) : Bool :=
  match e.call with
  | .shouldRetry b => p.networkErrors && p.allows b e.elapsed == allowed
  | _ => false

/-- A retry is pending after the calls, when none of them has sent the header: a status to be
    retried or a callback has asked for it, and no callback has withdrawn it since. -/
def Policy.Held (p : Policy) (before : List Event) : Prop :=
  Since (fun _ e => (p.retried e || p.callback true e) = true) (p.callback false ·) before

/-- One of the calls has sent the header: no retry was pending at it. -/
def Policy.Sent (p : Policy) (before : List Event) : Prop :=
  Since (fun pre e => p.sends e = true ∧ ¬ p.Held pre) (fun _ => False) before

/-- A retry is pending after the calls.  Once the header is sent only callbacks ask for it. -/
def Policy.Pending (p : Policy) (before : List Event) : Prop :=
  Since (fun pre e => p.retried e = true ∧ ¬ p.Sent pre ∨ p.callback true e = true)
    (p.callback false ·) before

/-- The call reaches the client, after the calls `before`. -/
inductive Policy.Reaches (p : Policy) (before : List Event) : Event → Prop where
  | flush {t} : p.Reaches before ⟨t, .op .flush⟩
  | write {t buf} : ¬ p.Pending before → p.Reaches before ⟨t, .op (.write buf)⟩
  | status {t code} : ¬ p.Pending before → ¬ p.Sent before → ¬ Informational code →
      p.retries code t = false → p.Reaches before ⟨t, .op (.writeHeader code)⟩

/-- The call `e`, which comes after `before ++ pre`, is the first of `events` that reaches the
    client. -/
def Policy.First (p : Policy) (before events pre : List Event) (e : Event) : Prop :=
  ∃ post, events = pre ++ e :: post ∧ p.Reaches (before ++ pre) e ∧
    ∀ pre' e' post', pre = pre' ++ e' :: post' → ¬ p.Reaches (before ++ pre') e'

open Classical in
/-- The headers of an attempt after one more call: a response 1xx drops them, unless a retry is
    pending. -/
noncomputable def Policy.collect (p : Policy) (before : List Event) (headers : Header) (e : Event) :
    Header :=
  match e.call with
  | .op (.header edit) => edit headers
  | .op (.writeHeader code) => if Informational code ∧ ¬ p.Pending before then ∅ else headers
  | _ => headers

noncomputable def Policy.collected (p : Policy) (before : List Event) (headers : Header) :
    List Event → Header
  | [] => headers
  | e :: events => p.collected (before ++ [e]) (p.collect before headers e) events

open Classical in
/-- The bytes that reach the client. -/
noncomputable def Policy.reached (p : Policy) (before : List Event) : List Event → List UInt8
  | [] => []
  | e :: events =>
    (if p.Reaches before e then bodyOf [e] else []) ++ p.reached (before ++ [e]) events

variable {p : Policy} {before events : List Event} {e : Event} {headers : Header}

theorem pending_concat : p.Pending (before ++ [e]) ↔
    (p.retried e = true ∧ ¬ p.Sent before ∨ p.callback true e = true) ∨
      p.Pending before ∧ ¬ p.callback false e = true :=
  since_concat

/-- As long as the header is not sent. -/
theorem pending_iff_held (h : ¬ p.Sent before) : p.Pending before ↔ p.Held before := by
  refine since_congr fun pre e post heq => ?_
  -- no call before this one has sent the header either
  have hsent : ¬ p.Sent pre := by
    rintro ⟨a, x, b, rfl, hx, -⟩
    exact h ⟨a, x, b ++ e :: post, by simp [heq], hx, by simp⟩
  simp [hsent]

theorem sent_concat : p.Sent (before ++ [e]) ↔
    p.Sent before ∨ p.sends e = true ∧ ¬ p.Pending before := by
  have hconcat : p.Sent (before ++ [e]) ↔ (p.sends e = true ∧ ¬ p.Held before) ∨ p.Sent before := by
    rw [Policy.Sent, since_concat]
    simp [Policy.Sent]
  by_cases h : p.Sent before
  · simp [hconcat, h]
  · simp [hconcat, h, pending_iff_held h]

/-! ## The writer follows them -/

variable {r r' : ResponseWriter}

theorem writeHeader_flags {code dt : ℤ} (h : r.writeHeader code dt = .ok r') :
    r'.toPolicy = r.toPolicy ∧
      r'.shouldRetry = (r.shouldRetry ||
        !decide (Informational code) && r.retries code dt && !r.written) ∧
      r'.written = (r.written ||
        !decide (Informational code) && !r.retries code dt && !r.shouldRetry) := by
  unfold ResponseWriter.writeHeader at h
  split at h
  · next hignored =>
    obtain rfl := Except.ok.inj h
    revert hignored
    cases r.shouldRetry <;> cases r.written <;> simp
  next hfree =>
  simp only [Bool.or_eq_true, not_or, Bool.not_eq_true] at hfree
  split at h
  · next hinf =>
    obtain rfl := Except.ok.inj h
    simp [hinf]
  next hinf =>
  split at h
  · next hretry =>
    obtain rfl := Except.ok.inj h
    simp [hfree, hinf, hretry]
  · next hretry =>
    obtain ⟨client, -, h⟩ := Outcome.ok_of_bind h
    obtain rfl := Except.ok.inj h
    simp [hfree, hinf, hretry]

/-- **The flags after a call.** -/
theorem exec_flags (h : r.exec e = .ok r') :
    r'.toPolicy = r.toPolicy ∧
      r'.shouldRetry = (r.retried e && !r.written || r.callback true e ||
        r.shouldRetry && !r.callback false e) ∧
      r'.written = (r.written || r.sends e && !r.shouldRetry) := by
  obtain ⟨dt, call⟩ := e
  match call with
  | .op (.header edit) =>
    obtain rfl := Except.ok.inj h
    unfold ResponseWriter.header
    split <;> simp [Policy.retried, Policy.sends, Policy.callback, Event.isFinal]
  | .op (.writeHeader code) =>
    obtain ⟨hpolicy, hretry, hwrote⟩ := writeHeader_flags h
    refine ⟨hpolicy, ?_, hwrote⟩
    rw [hretry, Bool.or_comm]
    simp [Policy.retried, Policy.callback, Event.isFinal, Event.code]
  | .op (.write buf) =>
    replace h : r.write buf dt = .ok r' := h
    unfold ResponseWriter.write at h
    split at h
    · next hpend =>
      obtain rfl := Except.ok.inj h
      simp [Policy.callback, hpend]
    next hpend =>
    -- the first `Write` is a `WriteHeader(200)` too
    obtain ⟨r₁, hensure, h⟩ := Outcome.ok_of_bind h
    obtain rfl := Except.ok.inj h
    unfold ResponseWriter.ensureHeader at hensure
    split at hensure
    · next hwrote =>
      obtain rfl := Except.ok.inj hensure
      simp [Policy.callback, hpend, hwrote]
    · obtain ⟨hpolicy, hretry, hwrote⟩ := writeHeader_flags hensure
      refine ⟨hpolicy, ?_, ?_⟩
      · rw [show _ = r₁.shouldRetry from rfl, hretry, Bool.or_comm]
        simp [Policy.retried, Policy.callback, Event.isFinal, Event.code, not_informational_ok]
      · rw [show _ = r₁.written from rfl, hwrote]
        simp [Policy.sends, Event.isFinal, Event.code, not_informational_ok]
  | .op .flush =>
    obtain rfl := Except.ok.inj h
    simp [ResponseWriter.flush, Policy.retried, Policy.sends, Policy.callback, Event.isFinal]
  | .shouldRetry b =>
    rw [exec_shouldRetry] at h
    obtain rfl := Except.ok.inj h
    cases hnet : r.networkErrors <;> cases hallow : r.allows b dt <;>
      simp [Policy.retried, Policy.sends, Policy.callback, Event.isFinal, hnet, hallow]

theorem writeHeader_headers {code dt : ℤ} (hunsent : r.written = false)
    (h : r.writeHeader code dt = .ok r') :
    r'.headers = if Informational code ∧ r.shouldRetry = false then ∅ else r.headers := by
  unfold ResponseWriter.writeHeader at h
  split at h
  · next hpend =>
    obtain rfl := Except.ok.inj h
    simp [show r.shouldRetry = true by simpa [hunsent] using hpend]
  next hfree =>
  have hpend : r.shouldRetry = false := by simpa [hunsent] using hfree
  split at h
  · next hinf =>
    obtain rfl := Except.ok.inj h
    simp [hinf, hpend]
  next hinf =>
  rw [if_neg fun h => hinf h.1]
  split at h
  · obtain rfl := Except.ok.inj h
    rfl
  · obtain ⟨client, -, h⟩ := Outcome.ok_of_bind h
    obtain rfl := Except.ok.inj h
    rfl

/-- The headers of the attempt after a call, while none has sent them. -/
theorem exec_headers (h : r.exec e = .ok r') (hunsent : r.written = false) :
    r'.headers = match e.call with
      | .op (.header edit) => edit r.headers
      | .op (.writeHeader code) =>
        if Informational code ∧ r.shouldRetry = false then ∅ else r.headers
      | _ => r.headers := by
  obtain ⟨dt, call⟩ := e
  match call with
  | .op (.header edit) =>
    obtain rfl := Except.ok.inj h
    rw [ResponseWriter.header, if_neg (by simp [hunsent])]
  | .op (.writeHeader code) => exact writeHeader_headers hunsent h
  | .op (.write buf) =>
    replace h : r.write buf dt = .ok r' := h
    unfold ResponseWriter.write at h
    split at h
    · obtain rfl := Except.ok.inj h
      rfl
    · obtain ⟨r₁, hensure, h⟩ := Outcome.ok_of_bind h
      obtain rfl := Except.ok.inj h
      rw [ResponseWriter.ensureHeader, if_neg (by simp [hunsent])] at hensure
      exact (writeHeader_headers hunsent hensure).trans (if_neg fun h => not_informational_ok h.1)
  | .op .flush =>
    obtain rfl := Except.ok.inj h
    rfl
  | .shouldRetry b =>
    rw [exec_shouldRetry] at h
    obtain rfl := Except.ok.inj h
    rfl

/-- The writer after the calls. -/
structure Tracks (p : Policy) (before : List Event) (headers : Header) (r : ResponseWriter) :
    Prop where
  policy : r.toPolicy = p
  pending : r.shouldRetry = true ↔ p.Pending before
  sent : r.written = true ↔ p.Sent before
  headers : r.written = false → r.headers = headers
  committed : r.written = true → r.client.committed ≠ none

theorem tracks_new (p : Policy) (client : Writer) : Tracks p [] ∅ (.new p client) where
  policy := rfl
  pending := iff_of_false nofun not_since_nil
  sent := iff_of_false nofun not_since_nil
  headers _ := rfl
  committed := nofun

section Tracks

variable (ht : Tracks p before headers r)
include ht

theorem Tracks.not_written (hclient : r.client.committed = none) : r.written = false := by
  rw [← Bool.not_eq_true]
  exact fun hsome => ht.committed hsome hclient

/-- While the header is not sent, the calls that reach the client are those that are not
    withheld. -/
theorem Tracks.reaches_iff (hwrote : r.written = false) :
    p.Reaches before e ↔ r.next r.shouldRetry e = none := by
  obtain ⟨rfl, hpending, hsent, -, -⟩ := ht
  have hsent' : ¬ r.Sent before := fun h => by simp [hsent.mpr h] at hwrote
  obtain ⟨dt, call⟩ := e
  match call with
  | .op (.header edit) => exact ⟨nofun, nofun⟩
  | .op .flush => exact ⟨fun _ => rfl, fun _ => .flush⟩
  | .shouldRetry b => exact ⟨nofun, nofun⟩
  | .op (.write buf) =>
    simp only [Policy.next, ite_eq_right_iff, reduceCtorEq, imp_false]
    exact ⟨fun | .write h => fun hp => h (hpending.mp hp), fun h => .write fun hp => h (hpending.mpr hp)⟩
  | .op (.writeHeader code) =>
    constructor
    · rintro (_ | _ | ⟨hp, -, hinf, hretry⟩)
      have hfalse : r.shouldRetry = false := by simpa [← hpending] using hp
      simp [Policy.next, hfalse, hinf, hretry]
    · intro hnext
      obtain ⟨hp, hinf, hretry⟩ := next_writeHeader_none hnext
      exact .status (by simp [← hpending, hp]) hsent' hinf hretry

theorem Tracks.exec (h : r.exec e = .ok r') :
    Tracks p (before ++ [e]) (p.collect before headers e) r' := by
  have hunsent := ht.not_written
  obtain ⟨rfl, hpending, hsent, hhdr, -⟩ := ht
  obtain ⟨hpolicy, hretry, hwrote⟩ := exec_flags h
  refine ⟨hpolicy, ?_, ?_, fun hnot => ?_, fun hdone => ?_⟩
  · rw [hretry, pending_concat, ← hpending, ← hsent]
    simp [or_assoc]
  · rw [hwrote, sent_concat, ← hpending, ← hsent]
    simp
  · have hbefore : r.written = false := by
      rw [hwrote, Bool.or_eq_false_iff] at hnot
      exact hnot.1
    rw [exec_headers h hbefore, hhdr hbefore, Policy.collect]
    simp [← hpending]
  · cases hclient : r.client.committed with
    | some status =>
      rw [(exec_committed hclient h).1]
      exact Option.some_ne_none _
    | none =>
      -- the header is sent by this call, which reaches the client
      have hfree := hunsent hclient
      have hnext : r.next r.shouldRetry e = none := by
        rw [hwrote, hfree, Bool.false_or, Bool.and_eq_true, Bool.not_eq_true'] at hdone
        obtain ⟨hsends, hpend⟩ := hdone
        obtain ⟨dt, call⟩ := e
        match call with
        | .op (.writeHeader code) =>
          simp only [Policy.sends, Event.isFinal, Event.code] at hsends
          simp_all [Policy.next]
        | .op (.write buf) => simp [Policy.next, hpend]
        | .op (.header _) | .op .flush | .shouldRetry _ => simp [Policy.sends, Event.isFinal] at hsends
      exact exec_reaches hfree hnext h

open Classical in
/-- The bytes of a call that reach the client. -/
theorem Tracks.reached_eq (e : Event) : (if p.Reaches before e then bodyOf [e] else []) =
    if r.shouldRetry = false then bodyOf [e] else [] := by
  obtain ⟨dt, call⟩ := e
  match call with
  | .op (.write buf) =>
    have hiff : p.Reaches before ⟨dt, .op (.write buf)⟩ ↔ r.shouldRetry = false := by
      rw [← Bool.not_eq_true, ht.pending]
      exact ⟨fun | .write h => h, .write⟩
    simp only [hiff]
  | .op (.header _) | .op (.writeHeader _) | .op .flush | .shouldRetry _ => simp [bodyOf]

theorem Tracks.run_pending (h : r.run events = .ok r') :
    r'.shouldRetry = true ↔ p.Pending (before ++ events) := by
  induction events generalizing before headers r with
  | nil =>
    obtain rfl := Except.ok.inj h
    rw [append_nil]
    exact ht.pending
  | cons e events ih =>
    rw [run_cons] at h
    obtain ⟨r₁, hexec, hrun⟩ := Outcome.ok_of_bind h
    rw [append_cons]
    exact ih (ht.exec hexec) hrun

/-- **After the status** only the bytes of calls that reach the client are added. -/
theorem Tracks.run_committed {status : ℤ × Header} (hclient : r.client.committed = some status)
    (h : r.run events = .ok r') :
    r'.client.committed = some status ∧ r'.client.body = r.client.body ++
      if Writer.bodyAllowed status.1 then p.reached before events else [] := by
  induction events generalizing before headers r with
  | nil =>
    obtain rfl := Except.ok.inj h
    exact ⟨hclient, by simp [Policy.reached]⟩
  | cons e events ih =>
    rw [run_cons] at h
    obtain ⟨r₁, hexec, hrun⟩ := Outcome.ok_of_bind h
    obtain ⟨hkept, hbody⟩ := exec_committed hclient hexec
    obtain ⟨hkept', hbody'⟩ := ih (ht.exec hexec) hkept hrun
    refine ⟨hkept', ?_⟩
    rw [hbody', hbody, Policy.reached, ht.reached_eq e]
    by_cases hallowed : Writer.bodyAllowed status.1 = true <;> simp [hallowed]

end Tracks

/-! ## The first call that reaches the client -/

variable {pre : List Event} {x : Event}

theorem first_cons_of_reaches (h : p.Reaches before e) :
    p.First before (e :: events) pre x ↔ pre = [] ∧ x = e := by
  constructor
  · rintro ⟨post, heq, -, hmin⟩
    cases pre with
    | nil => exact ⟨rfl, (cons.inj heq).1.symm⟩
    | cons e' pre =>
      obtain ⟨rfl, -⟩ := cons.inj heq
      exact absurd (by simpa using h) (hmin [] e pre rfl)
  · rintro ⟨rfl, rfl⟩
    exact ⟨events, rfl, by simpa using h, by simp⟩

theorem first_cons_of_not (h : ¬ p.Reaches before e) :
    p.First before (e :: events) pre x ↔
      ∃ pre', pre = e :: pre' ∧ p.First (before ++ [e]) events pre' x := by
  constructor
  · rintro ⟨post, heq, hreach, hmin⟩
    cases pre with
    | nil =>
      obtain ⟨rfl, -⟩ := cons.inj heq
      exact absurd (by simpa using hreach) h
    | cons e' pre =>
      obtain ⟨rfl, rfl⟩ := cons.inj heq
      refine ⟨pre, rfl, post, rfl, by simpa using hreach, fun pre' e' post' hpre => ?_⟩
      simpa using hmin (e :: pre') e' post' (by rw [hpre]; rfl)
  · rintro ⟨pre, rfl, post, rfl, hreach, hmin⟩
    refine ⟨post, rfl, by simpa using hreach, fun pre' e' post' hpre => ?_⟩
    cases pre' with
    | nil =>
      obtain ⟨rfl, -⟩ := cons.inj hpre
      simpa using h
    | cons e'' pre' =>
      obtain ⟨rfl, rfl⟩ := cons.inj hpre
      simpa using hmin pre' e' post' rfl

theorem reached_of_not_first (h : ∀ pre e, ¬ p.First before events pre e) :
    p.reached before events = [] := by
  induction events generalizing before with
  | nil => rfl
  | cons e events ih =>
    by_cases hreach : p.Reaches before e
    · exact absurd ((first_cons_of_reaches hreach).mpr ⟨rfl, rfl⟩) (h [] e)
    · rw [Policy.reached, if_neg hreach, nil_append]
      exact ih fun pre x hfirst => h _ x ((first_cons_of_not hreach).mpr ⟨pre, rfl, hfirst⟩)

theorem Policy.First.unique {pre' : List Event} {x' : Event} (h : p.First before events pre x)
    (h' : p.First before events pre' x') : pre = pre' ∧ x = x' := by
  obtain ⟨post, rfl, hreach, hmin⟩ := h
  obtain ⟨post', heq, hreach', hmin'⟩ := h'
  -- the call with the shorter prefix stands in the longer one, where none reaches the client
  rcases append_eq_append_iff.mp heq with ⟨l, rfl, hl⟩ | ⟨l, rfl, hl⟩
  · cases l with
    | nil => exact ⟨by simp, (cons.inj hl).1⟩
    | cons y l =>
      obtain ⟨rfl, -⟩ := cons.inj hl
      exact absurd hreach (hmin' pre x l rfl)
  · cases l with
    | nil => exact ⟨by simp, (cons.inj hl).1.symm⟩
    | cons y l =>
      obtain ⟨rfl, -⟩ := cons.inj hl
      exact absurd hreach' (hmin pre' x' l rfl)

/-- Bytes are added one after the other, or none is. -/
theorem append_allowed (status : ℤ) (old buf buf' : List UInt8) :
    (old ++ if Writer.bodyAllowed status then buf else []) ++
        (if Writer.bodyAllowed status then buf' else []) =
      old ++ if Writer.bodyAllowed status then buf ++ buf' else [] := by
  split <;> simp

/-- **Before the status**: an attempt leaves the client as it was when none of its calls reaches
    it; and else the first of them commits its status and the headers of the attempt. -/
theorem Tracks.run_uncommitted (ht : Tracks p before headers r) (hclient : r.client.committed = none)
    (h : r.run events = .ok r') :
    (r'.client = r.client ∧ ∀ pre e, ¬ p.First before events pre e) ∨
    ∃ pre e, p.First before events pre e ∧
      r'.client.committed = some (e.code,
        copyHeader r.client.header (p.copies e (p.collected before headers pre))) ∧
      r'.client.body = r.client.body ++
        if Writer.bodyAllowed e.code then p.reached before events else [] := by
  induction events generalizing before headers r with
  | nil =>
    obtain rfl := Except.ok.inj h
    exact .inl ⟨rfl, fun pre e ⟨post, heq, _⟩ => by simp at heq⟩
  | cons e events ih =>
    rw [run_cons] at h
    obtain ⟨r₁, hexec, hrun⟩ := Outcome.ok_of_bind h
    have hwrote := ht.not_written hclient
    by_cases hreach : p.Reaches before e
    · -- this call commits the status, and the others only add bytes
      right
      obtain ⟨hcommit, hbody⟩ := exec_first hwrote hclient ((ht.reaches_iff hwrote).mp hreach) hexec
      obtain ⟨hkept, hbody'⟩ := (ht.exec hexec).run_committed hcommit hrun
      refine ⟨[], e, (first_cons_of_reaches hreach).mpr ⟨rfl, rfl⟩, ?_, ?_⟩
      · rw [hkept, Policy.collected, ← ht.headers hwrote, ← ht.policy]
      · rw [hbody', hbody, Policy.reached, if_pos hreach, append_allowed]
    · -- a call that is withheld leaves the client as it was
      obtain ⟨pend, hnext⟩ := Option.ne_none_iff_exists'.mp fun h => hreach
        ((ht.reaches_iff hwrote).mpr h)
      obtain ⟨r₂, hexec₂, -, hsame, -⟩ := exec_withheld hwrote hnext
      obtain rfl : r₂ = r₁ := Except.ok.inj (hexec₂.symm.trans hexec)
      have hrest := ih (ht.exec hexec) (by rw [hsame]; exact hclient) hrun
      rw [hsame] at hrest
      simp only [first_cons_of_not hreach]
      rcases hrest with ⟨hclient', hnone⟩ | ⟨pre, x, hfirst, hcommit, hbody⟩
      · refine .inl ⟨hclient', ?_⟩
        rintro pre x ⟨pre', -, hfirst⟩
        exact hnone pre' x hfirst
      · refine .inr ⟨e :: pre, x, ⟨pre, rfl, hfirst⟩, hcommit, ?_⟩
        rw [hbody, Policy.reached, if_neg hreach, nil_append]

end Ingress.Retry
