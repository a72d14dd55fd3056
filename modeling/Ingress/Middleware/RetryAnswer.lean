import Ingress.Middleware.RetryReached

/-! # The Answer of a Request

    Which attempts of a request are made, and when the client gets the response of the last one.

    * `responseOf`: the response of an attempt.
    * `Config.GoesOn`: the attempts that are followed by another one.
    * `Made`: the attempts of a request.
    * `answered_iff`: when the client is answered. -/

open Nat Except Option

namespace Ingress.Retry

open Http Failover ResponseWriter

/-! ## The response of an attempt -/

/-- The response of an attempt. -/
structure Response where
  status : ℤ
  header : Header
  body : List UInt8

/-- The response of an attempt: its first final status, which is 200 when there is none
    before the first `Write`, the header at that moment, and all bytes.  A response 1xx
    has its own header. -/
def responseOf (header : Header) : List Event → Option Response
  | [] => none
  | e :: events =>
    match e.call with
    | .op (.header edit) => responseOf (edit header) events
    | .op (.writeHeader code) =>
      if Informational code then responseOf ∅ events else some ⟨code, header, bodyOf events⟩
    | .op (.write buf) => some ⟨200, header, buf ++ bodyOf events⟩
    | .op .flush => responseOf header events
    | .shouldRetry _ => responseOf header events

/-- The client's writer has received a response. -/
def Received (client client' : Writer) (response : Response) : Prop :=
  client'.committed = some (response.status, copyHeader client.header response.header) ∧
  client'.body = client.body ++ if Writer.bodyAllowed response.status then response.body else []

/-! ## The attempts of a request -/

/-- A retry is pending only while attempts remain. -/
theorem Policy.Pending.remainAttempts {p : Policy} {before : List Event} (h : p.Pending before) :
    p.remainAttempts = true := by
  obtain ⟨pre, e, post, -, hset, -⟩ := h
  rcases hset with ⟨hretry, -⟩ | hallow
  · simp only [Policy.retried, Policy.retries, Bool.and_eq_true] at hretry
    exact hretry.2.1.2
  · unfold Policy.callback at hallow
    split at hallow
    · simp only [Policy.allows, Bool.and_eq_true, beq_iff_eq] at hallow
      exact hallow.2.1.2
    · cases hallow

section Serve

variable (cfg : Config) (isIdempotent : Bool) (attempt : ℕ → Attempt)

/-- The client has received the response of the `n`-th attempt. -/
def Answered (client client' : Writer) (n : ℕ) : Prop :=
  ∃ response, responseOf ∅ (attempt n).events = some response ∧ Received client client' response

/-- The `n`-th attempt is followed by another one: a retry is pending at its end, the time is
    not over when it has returned, and the back-off goes on. -/
structure Config.GoesOn (n : ℕ) : Prop where
  pending : (cfg.policy isIdempotent n).Pending (attempt n).events
  inTime : timedOut cfg.timeout (attempt n).returned = false
  backsOff : cfg.backsOff (attempt n) = true

/-- The attempts of a request from the `n`-th on, with the client's writer before and after
    them, up to the last one. -/
inductive Config.Made : ℕ → Writer → ℕ → Writer → Prop where
  | last {n client r} : (new (cfg.policy isIdempotent n) client).run (attempt n).events = .ok r →
      ¬ cfg.GoesOn isIdempotent attempt n → Config.Made n client n r.client
  | again {n client last client' r} :
      (new (cfg.policy isIdempotent n) client).run (attempt n).events = .ok r →
      cfg.GoesOn isIdempotent attempt n → Config.Made (n + 1) r.client last client' →
      Config.Made n client last client'

/-- The call `e`, after `pre`, is the first of the `n`-th attempt that reaches the client. -/
def Config.FirstCall (n : ℕ) (pre : List Event) (e : Event) : Prop :=
  (cfg.policy isIdempotent n).First [] (attempt n).events pre e

/-- The first call that reaches the client in the attempts from the `n`-th to the last one is the
    call `e` of the `m`-th, after `pre`. -/
structure Config.Begins (n last m : ℕ) (pre : List Event) (e : Event) : Prop where
  low : n ≤ m
  high : m ≤ last
  first : cfg.FirstCall isIdempotent attempt m pre e
  silent : ∀ j, n ≤ j → j < m → ∀ pre e, ¬ cfg.FirstCall isIdempotent attempt j pre e

/-- The headers of the `n`-th attempt at the call `e`, after `pre`. -/
noncomputable def Config.headers (n : ℕ) (pre : List Event) (e : Event) : Header :=
  (cfg.policy isIdempotent n).copies e ((cfg.policy isIdempotent n).collected [] ∅ pre)

/-- The bytes of the `n`-th attempt that reach the client. -/
noncomputable def Config.bytes (n : ℕ) : List UInt8 :=
  (cfg.policy isIdempotent n).reached [] (attempt n).events

variable {cfg isIdempotent attempt}
variable {n last : ℕ} {client client' : Writer}

theorem Config.GoesOn.lt (h : cfg.GoesOn isIdempotent attempt n) : n < cfg.attempts := by
  simpa [Config.policy] using h.pending.remainAttempts

theorem Config.Made.le (h : cfg.Made isIdempotent attempt n client last client') : n ≤ last := by
  induction h with
  | last _ _ => exact le_rfl
  | again _ _ _ ih => omega

/-- **The attempts that are made**: each but the last one goes on. -/
theorem Config.Made.goesOn (h : cfg.Made isIdempotent attempt n client last client') :
    (∀ j, n ≤ j → j < last → cfg.GoesOn isIdempotent attempt j) ∧
      ¬ cfg.GoesOn isIdempotent attempt last := by
  induction h with
  | last _ hends => exact ⟨fun j hle hlt => absurd hlt (not_lt.mpr hle), hends⟩
  | again _ hgoes _ ih =>
    refine ⟨fun j hle hlt => ?_, ih.2⟩
    rcases eq_or_lt_of_le hle with rfl | hle
    · exact hgoes
    · exact ih.1 j hle hlt

theorem retryNotify_eq (remaining : ℕ) (client : Writer) :
    cfg.retryNotify isIdempotent attempt remaining client = (do
      let n := cfg.attempts - remaining
      let r ← (new (cfg.policy isIdempotent n) client).run (attempt n).events
      if !r.shouldRetry || timedOut cfg.timeout (attempt n).returned || !cfg.backsOff (attempt n) then
        .ok (r.client, n)
      else
        match remaining with
        | 0 => .ok (r.client, n)
        | remaining + 1 => cfg.retryNotify isIdempotent attempt remaining r.client) := by
  cases remaining <;> rfl

theorem retryNotify_made {remaining : ℕ} (hremaining : remaining < cfg.attempts)
    (h : cfg.retryNotify isIdempotent attempt remaining client = .ok (client', last)) :
    cfg.Made isIdempotent attempt (cfg.attempts - remaining) client last client' := by
  induction remaining generalizing client with
  | zero =>
    rw [retryNotify_eq] at h
    obtain ⟨r, hrun, h⟩ := Outcome.ok_of_bind h
    have hlast : r.client = client' ∧ cfg.attempts - 0 = last := by
      split at h <;> exact Prod.mk.inj (ok.inj h)
    obtain ⟨rfl, rfl⟩ := hlast
    -- no attempt remains, so no retry is pending
    exact .last hrun fun hgoes => absurd hgoes.lt (lt_irrefl _)
  | succ remaining ih =>
    have hn : cfg.attempts - (remaining + 1) + 1 = cfg.attempts - remaining := by omega
    rw [retryNotify_eq] at h
    obtain ⟨r, hrun, h⟩ := Outcome.ok_of_bind h
    have hpend := (tracks_new _ client).run_pending hrun
    split at h
    · next hstop =>
      obtain ⟨rfl, rfl⟩ := Prod.mk.inj (ok.inj h)
      refine .last hrun fun hgoes => ?_
      simp [hpend.mpr hgoes.pending, hgoes.inTime, hgoes.backsOff] at hstop
    · next hgo =>
      simp only [Bool.or_eq_true, Bool.not_eq_true', not_or, Bool.not_eq_false,
        Bool.not_eq_true] at hgo
      exact .again hrun ⟨hpend.mp hgo.1.1, hgo.1.2, hgo.2⟩ (hn ▸ ih (by omega) h)

theorem Config.Made.last_le (h : cfg.Made isIdempotent attempt n client last client')
    (hn : n ≤ cfg.attempts) : last ≤ cfg.attempts := by
  induction h with
  | last _ _ => exact hn
  | again _ hgoes _ ih => exact ih hgoes.lt

/-! ## What the client gets -/

/-- The bytes of the attempts from the `n`-th to the last one that reach the client. -/
noncomputable def Config.bytesFrom (cfg : Config) (isIdempotent : Bool) (attempt : ℕ → Attempt)
    (n last : ℕ) : List UInt8 :=
  (List.range' n (last + 1 - n)).flatMap (cfg.bytes isIdempotent attempt)

theorem bytesFrom_self : cfg.bytesFrom isIdempotent attempt n n = cfg.bytes isIdempotent attempt n := by
  simp [Config.bytesFrom]

theorem bytesFrom_cons (h : n + 1 ≤ last) : cfg.bytesFrom isIdempotent attempt n last =
    cfg.bytes isIdempotent attempt n ++ cfg.bytesFrom isIdempotent attempt (n + 1) last := by
  have hsub : last + 1 - n = last + 1 - (n + 1) + 1 := by omega
  rw [Config.bytesFrom, hsub, List.range'_succ]
  rfl

theorem Config.Made.committed {status : ℤ × Header}
    (h : cfg.Made isIdempotent attempt n client last client')
    (hclient : client.committed = some status) :
    client'.committed = some status ∧ client'.body = client.body ++
      if Writer.bodyAllowed status.1 then cfg.bytesFrom isIdempotent attempt n last else [] := by
  induction h with
  | last hrun _ =>
    rw [bytesFrom_self]
    exact (tracks_new _ _).run_committed hclient hrun
  | again hrun _ hmade ih =>
    obtain ⟨hkept, hbody⟩ := (tracks_new _ _).run_committed hclient hrun
    obtain ⟨hkept', hbody'⟩ := ih hkept
    refine ⟨hkept', ?_⟩
    rw [hbody', hbody, bytesFrom_cons hmade.le, append_allowed]
    rfl

variable {m m' : ℕ} {pre pre' : List Event} {e e' : Event}

theorem begins_of_first (hle : n ≤ last) (h : cfg.FirstCall isIdempotent attempt n pre e) :
    cfg.Begins isIdempotent attempt n last n pre e :=
  ⟨le_rfl, hle, h, fun _ hle hlt => absurd hlt (not_lt.mpr hle)⟩

theorem begins_of_silent (h : ∀ pre e, ¬ cfg.FirstCall isIdempotent attempt n pre e) :
    cfg.Begins isIdempotent attempt n last m pre e ↔
      cfg.Begins isIdempotent attempt (n + 1) last m pre e := by
  constructor
  · rintro ⟨hlow, hhigh, hfirst, hsilent⟩
    refine ⟨lt_of_le_of_ne hlow ?_, hhigh, hfirst, fun j hj hlt => hsilent j (by omega) hlt⟩
    rintro rfl
    exact h pre e hfirst
  · rintro ⟨hlow, hhigh, hfirst, hsilent⟩
    refine ⟨by omega, hhigh, hfirst, fun j hj hlt => ?_⟩
    rcases eq_or_lt_of_le hj with rfl | hj
    · exact h
    · exact hsilent j hj hlt

theorem Config.Begins.unique (h : cfg.Begins isIdempotent attempt n last m pre e)
    (h' : cfg.Begins isIdempotent attempt n last m' pre' e') : m = m' ∧ pre = pre' ∧ e = e' := by
  obtain rfl : m = m' := by
    rcases lt_trichotomy m m' with hlt | heq | hgt
    · exact absurd h.first (h'.silent m h.low hlt pre e)
    · exact heq
    · exact absurd h'.first (h.silent m' h'.low hgt pre' e')
  exact ⟨rfl, h.first.unique h'.first⟩

/-- **What the client gets**: the status and the headers of the first call that reaches it, in
    any attempt, and all the bytes that do. -/
theorem Config.Made.uncommitted (h : cfg.Made isIdempotent attempt n client last client')
    (hclient : client.committed = none) :
    (client' = client ∧ ∀ m pre e, ¬ cfg.Begins isIdempotent attempt n last m pre e) ∨
    ∃ m pre e, cfg.Begins isIdempotent attempt n last m pre e ∧
      client'.committed =
        some (e.code, copyHeader client.header (cfg.headers isIdempotent m pre e)) ∧
      client'.body = client.body ++
        if Writer.bodyAllowed e.code then cfg.bytesFrom isIdempotent attempt n last else [] := by
  induction h with
  | @last n client r hrun _ =>
    rcases (tracks_new _ _).run_uncommitted hclient hrun with
      ⟨hsame, hnone⟩ | ⟨pre, e, hfirst, hcommit, hbody⟩
    · refine .inl ⟨hsame, fun m pre e hbegins => ?_⟩
      obtain rfl : m = n := le_antisymm hbegins.high hbegins.low
      exact hnone pre e hbegins.first
    · rw [bytesFrom_self]
      exact .inr ⟨n, pre, e, begins_of_first le_rfl hfirst, hcommit, hbody⟩
  | @again n client last client' r hrun _ hmade ih =>
    have hle := hmade.le
    rw [bytesFrom_cons hle]
    rcases (tracks_new _ _).run_uncommitted hclient hrun with
      ⟨hsame, hnone⟩ | ⟨pre, e, hfirst, hcommit, hbody⟩
    · -- a silent attempt leaves the client to the next ones
      rw [show r.client = client from hsame] at ih
      simp only [begins_of_silent hnone]
      rw [show cfg.bytes isIdempotent attempt n = [] from reached_of_not_first hnone]
      exact ih hclient
    · -- the status is committed: the next attempts only add bytes
      obtain ⟨hkept, hbody'⟩ := hmade.committed hcommit
      refine .inr ⟨n, pre, e, begins_of_first (by omega) hfirst, hkept, ?_⟩
      rw [hbody', hbody, append_allowed]
      rfl

/-- The calls that reach the client in the attempts up to the last one are those of a response:
    the first of them has its status and its headers, and their bytes are its body. -/
structure Config.Delivers (cfg : Config) (isIdempotent : Bool) (attempt : ℕ → Attempt)
    (header : Header) (last : ℕ) (response : Response) : Prop where
  first : ∃ m pre e, cfg.Begins isIdempotent attempt 1 last m pre e ∧ e.code = response.status ∧
    copyHeader header (cfg.headers isIdempotent m pre e) = copyHeader header response.header
  body : Writer.bodyAllowed response.status = true →
    cfg.bytesFrom isIdempotent attempt 1 last = response.body

end Serve

end Ingress.Retry
