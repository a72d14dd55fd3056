import Ingress.Framework.Journal
import Ingress.Framework.System

/-! # The Configuration Watcher

    `pkg/server/configurationwatcher.go`: one loop receives the messages of the
    providers and keeps the configuration of each, and another one builds a
    configuration out of all of them and hands it to the listeners.  Between them is an
    unbuffered channel; a set of configurations that nobody has taken is replaced when
    the next message arrives.

    There are no transformers.  What is built, `applyModel` of `mergeConfiguration`, is
    any relation `Builds`: the order in which maps are walked may show in it.

    * `watcher`: both loops, one label per atomic step.
    * `Inv`: what is on offer, was taken or was applied last is up to date.
    * `watcher_converges`: what the listeners have been given when both loops wait. -/

open List LTS Finmap

namespace Ingress.Watcher

/-! ## Configurations

    A map or list of the source is nil or some value of `α`. -/

structure HTTPConfiguration (α : Type) where
  routers : Option α
  services : Option α
  middlewares : Option α
  models : Option α
  serversTransports : Option α
  deriving DecidableEq

structure TCPConfiguration (α : Type) where
  routers : Option α
  services : Option α
  middlewares : Option α
  models : Option α
  serversTransports : Option α
  deriving DecidableEq

structure UDPConfiguration (α : Type) where
  routers : Option α
  services : Option α
  deriving DecidableEq

structure TLSConfiguration (α : Type) where
  certificates : Option α
  options : Option α
  stores : Option α
  deriving DecidableEq

structure Configuration (α : Type) where
  http : Option (HTTPConfiguration α)
  tcp : Option (TCPConfiguration α)
  udp : Option (UDPConfiguration α)
  tls : Option (TLSConfiguration α)
  deriving DecidableEq

structure Message (α : Type) where
  providerName : String
  configuration : Option (Configuration α)

/-- `Configurations`, by provider. -/
abbrev Configurations (α : Type) := Finmap fun _ : String => Configuration α

variable {α : Type}

/-- `isEmptyConfiguration`: the parts that are nil are filled in on the way. -/
def isEmptyConfiguration (conf : Configuration α) : Configuration α × Bool :=
  let tcp := conf.tcp.getD ⟨none, none, none, none, none⟩
  let http := conf.http.getD ⟨none, none, none, none, none⟩
  let udp := conf.udp.getD ⟨none, none⟩
  let httpEmpty := http.routers.isNone && http.services.isNone && http.middlewares.isNone
  let tlsEmpty := match conf.tls with
    | none => true
    | some tls => tls.certificates.isNone && tls.stores.isNone && tls.options.isNone
  let tcpEmpty := tcp.routers.isNone && tcp.services.isNone && tcp.middlewares.isNone
  let udpEmpty := udp.routers.isNone && udp.services.isNone
  (⟨some http, some tcp, some udp, conf.tls⟩, httpEmpty && tlsEmpty && tcpEmpty && udpEmpty)

/-! ## The loops -/

/-- Where `receiveConfigurations` stands. -/
inductive ReceivePc where
  /-- The select with a default case. -/
  | prefer
  /-- The inner select. -/
  | select
  | returned
  deriving DecidableEq, Repr

/-- Where `applyConfigurations` stands. -/
inductive ApplyPc (α : Type) where
  | select
  /-- A set of configurations was received. -/
  | received (newConfigs : Configurations α)
  | returned

/-- A call of the listeners: what was built, and out of what. -/
structure Call (α β : Type) where
  configurations : Configurations α
  conf : β

/-- Both loops and the channel of the messages. -/
structure State (α β : Type) where
  receive : ReceivePc
  apply : ApplyPc α
  /-- `allProvidersConfigs`. -/
  messages : List (Message α)
  newConfigurations : Configurations α
  /-- The variable `output` is not nil. -/
  output : Bool
  lastConfigurations : Option (Configurations α)
  /-- The messages sent so far, and those of them that were received. -/
  provided : List (Message α)
  consumed : List (Message α)
  /-- The last set of configurations that was taken from the channel. -/
  taken : Configurations α
  /-- The calls of the listeners so far. -/
  calls : List (Call α β)

/-- The steps of the loops, and of the providers and the context. -/
inductive Label (α : Type) where
  | provide (m : Message α)
  | sendFirst
  | skip
  | receive
  | send
  | apply
  | receiveReturn
  | applyReturn

/-- The steps of the loops. -/
def Label.own : Label α → Bool
  | .sendFirst | .skip | .receive | .send | .apply => true
  | _ => false

variable {β : Type}

/-- A send on the output can go ahead. -/
def State.ready (s : State α β) : Prop :=
  s.output = true ∧ s.apply = .select

/-- The send of a copy of the configurations to the other loop. -/
def State.deliver (s : State α β) : State α β :=
  { s with
    receive := .prefer
    apply := .received s.newConfigurations
    output := false
    taken := s.newConfigurations }

/-- The configuration that a message leaves for its provider. -/
def Message.accepted (m : Message α) : Option (String × Configuration α) :=
  match m.configuration with
  | none => none
  | some conf =>
    if (isEmptyConfiguration conf).2 then none
    else some (m.providerName, (isEmptyConfiguration conf).1)

/-- What `receiveConfigurations` does with a message: a nil, empty or unchanged
    configuration is skipped. -/
def State.handle [DecidableEq α] (s : State α β) (m : Message α) : State α β :=
  match m.accepted with
  | none => s
  | some (pvd, conf) =>
    if s.newConfigurations.lookup pvd = some conf then s
    else { s with newConfigurations := s.newConfigurations.insert pvd conf, output := true }

/-- `applyConfigurations` skips the configurations: the required provider is missing, or
    they are the ones that were applied last. -/
def State.skips (requiredProvider : String) (s : State α β) (newConfigs : Configurations α) : Prop :=
  (requiredProvider ≠ "" ∧ requiredProvider ∉ newConfigs) ∨ some newConfigs = s.lastConfigurations

variable (requiredProvider : String) (Builds : Configurations α → β → Prop)

open State

/-- One step.  A select takes one of the cases that can go ahead, and the default case
    only when there is none. -/
def step [DecidableEq α] (s : State α β) (l : Label α) (s' : State α β) : Prop :=
  match l with
  | .provide m =>
      s' = { s with messages := s.messages ++ [m], provided := s.provided ++ [m] }
  | .sendFirst => s.receive = .prefer ∧ s.ready ∧ s' = s.deliver
  | .skip => s.receive = .prefer ∧ ¬ s.ready ∧ s' = { s with receive := .select }
  | .receive =>
      s.receive = .select ∧
      ∃ m rest, s.messages = m :: rest ∧
        s' = handle { s with
          receive := .prefer
          messages := rest
          consumed := s.consumed ++ [m] } m
  | .send => s.receive = .select ∧ s.ready ∧ s' = s.deliver
  | .apply =>
      ∃ newConfigs, s.apply = .received newConfigs ∧
        (s.skips requiredProvider newConfigs ∧ s' = { s with apply := .select } ∨
          ¬ s.skips requiredProvider newConfigs ∧ ∃ conf, Builds newConfigs conf ∧
            s' = { s with
              apply := .select
              lastConfigurations := some newConfigs
              calls := s.calls ++ [⟨newConfigs, conf⟩] })
  | .receiveReturn => s' = { s with receive := .returned }
  | .applyReturn => s' = { s with apply := .returned }

/-- The loops when they start. -/
def start : State α β where
  receive := .prefer
  apply := .select
  messages := []
  newConfigurations := ∅
  output := false
  lastConfigurations := none
  provided := []
  consumed := []
  taken := ∅
  calls := []

/-- All interleavings. -/
def watcher [DecidableEq α] : System (State α β) (Label α) where
  init := fun s => s = start
  step := step requiredProvider Builds

/-- All messages are received, and both loops wait in a select where no case can go
    ahead. -/
def State.Idle (s : State α β) : Prop :=
  s.messages = [] ∧ s.receive = .select ∧ s.apply = .select ∧ ¬ s.ready

/-- What the messages leave for each provider: its last configuration that is neither nil
    nor empty. -/
def latest (messages : List (Message α)) (pvd : String) : Option (Configuration α) :=
  Journal.last pvd (messages.filterMap Message.accepted)

/-! ## The messages received -/

/-- The configurations of the messages. -/
def gathered (messages : List (Message α)) : Configurations α :=
  Journal.replay ∅ (messages.filterMap Message.accepted)

open Journal

theorem lookup_gathered (msgs : List (Message α)) (pvd : String) :
    (gathered msgs).lookup pvd = latest msgs pvd := by
  rw [gathered, lookup_replay, lookup_empty, Option.or_none, latest]

/-- What `handle` does: it writes down the configuration, and offers the result when it
    differs. -/
theorem handle_cases [DecidableEq α] (s : State α β) (m : Message α) :
    ((s.handle m) = s ∧
      replay s.newConfigurations m.accepted.toList = s.newConfigurations) ∨
    (s.handle m) = { s with
      newConfigurations := replay s.newConfigurations m.accepted.toList
      output := true } := by
  unfold handle
  cases hacc : m.accepted with
  | none => exact .inl ⟨rfl, rfl⟩
  | some write =>
    obtain ⟨pvd, conf⟩ := write
    by_cases hsame : s.newConfigurations.lookup pvd = some conf
    · refine .inl ⟨if_pos hsame, ext_lookup fun pvd' => ?_⟩
      rw [lookup_replay]
      by_cases heq : pvd = pvd'
      · subst heq
        simp [last, hsame]
      · simp [last, heq]
    · exact .inr (if_neg hsame)

theorem gathered_snoc (msgs : List (Message α)) (m : Message α) :
    gathered (msgs ++ [m]) = replay (gathered msgs) m.accepted.toList := by
  rw [gathered, filterMap_append, replay_append, ← gathered]
  cases hacc : m.accepted <;> simp [hacc]

/-! ## Invariant -/

/-- The configurations can be applied. -/
def Applicable (configurations : Configurations α) : Prop :=
  configurations ≠ ∅ ∧ (requiredProvider ≠ "" → requiredProvider ∈ configurations)

/-- The configurations taken are being looked at, were applied last, or cannot be
    applied. -/
def State.Settled (s : State α β) : Prop :=
  match s.apply with
  | .received newConfigs => newConfigs = s.taken
  | _ => Applicable requiredProvider s.taken → s.lastConfigurations = some s.taken

/-- The invariant of both loops. -/
structure Inv (s : State α β) : Prop where
  /-- No message is lost. -/
  split : s.provided = s.consumed ++ s.messages
  current : s.newConfigurations = gathered s.consumed
  /-- What is not on offer was taken. -/
  offered : s.output = false → s.taken = s.newConfigurations
  settled : s.apply ≠ .returned → s.Settled requiredProvider
  /-- The configurations taken were received. -/
  past : ∃ earlier, earlier <+: s.consumed ∧ s.taken = gathered earlier
  last : s.lastConfigurations = s.calls.getLast?.map Call.configurations
  built : ∀ call ∈ s.calls, Builds call.configurations call.conf
  required : s.calls ≠ [] → requiredProvider ≠ "" → latest s.consumed requiredProvider ≠ none
  changes : s.calls.IsChain fun call call' => call.configurations ≠ call'.configurations

variable {requiredProvider Builds} {s s' : State α β}

theorem inv_start : Inv requiredProvider Builds (start : State α β) where
  split := rfl
  current := rfl
  offered _ := rfl
  settled _ h := absurd rfl h.1
  past := ⟨[], prefix_rfl, rfl⟩
  last := rfl
  built := nofun
  required h := absurd rfl h
  changes := .nil

theorem latest_append_ne_none {msgs : List (Message α)} {pvd : String}
    (h : latest msgs pvd ≠ none) (later : List (Message α)) :
    latest (msgs ++ later) pvd ≠ none := by
  rw [latest, filterMap_append, last_append]
  intro hnone
  exact h (Option.or_eq_none_iff.mp hnone).2

section
variable (h : Inv requiredProvider Builds s)
include h

/-- The other loop takes what is on offer. -/
theorem Inv.deliver : Inv requiredProvider Builds s.deliver :=
  { h with
    offered := fun _ => rfl
    settled := fun _ => rfl
    past := ⟨s.consumed, prefix_rfl, h.current⟩ }

/-- A message is received. -/
theorem Inv.handle [DecidableEq α] {m : Message α} {rest : List (Message α)}
    (hmsgs : s.messages = m :: rest) :
    Inv requiredProvider Builds (handle
      { s with receive := .prefer, messages := rest, consumed := s.consumed ++ [m] } m) := by
  have hsplit : s.provided = (s.consumed ++ [m]) ++ rest := by
    rw [h.split, hmsgs, append_assoc, singleton_append]
  have hpast : ∃ earlier, earlier <+: s.consumed ++ [m] ∧ s.taken = gathered earlier := by
    obtain ⟨earlier, hpre, htaken⟩ := h.past
    exact ⟨earlier, hpre.trans (prefix_append _ _), htaken⟩
  have hrequired : s.calls ≠ [] → requiredProvider ≠ "" →
      latest (s.consumed ++ [m]) requiredProvider ≠ none :=
    fun hcalls hreq => latest_append_ne_none (h.required hcalls hreq) [m]
  have hgathered := gathered_snoc s.consumed m
  rw [← h.current] at hgathered
  rcases handle_cases
    { s with receive := .prefer, messages := rest, consumed := s.consumed ++ [m] } m with
    ⟨heq, hsame⟩ | heq
  · rw [heq]
    exact { h with
      split := hsplit, past := hpast, required := hrequired
      current := hsame.symm.trans hgathered.symm }
  · rw [heq]
    exact { h with
      split := hsplit, past := hpast, required := hrequired
      current := hgathered.symm
      offered := nofun }

/-- The configurations are skipped. -/
theorem Inv.skip {new : Configurations α}
    (hrecv : s.apply = .received new) (hskips : s.skips requiredProvider new) :
    Inv requiredProvider Builds { s with apply := .select } := by
  have htaken : new = s.taken := by
    have hsettled := h.settled (by rw [hrecv]; nofun)
    rwa [State.Settled, hrecv] at hsettled
  refine { h with settled := fun _ happlicable => ?_ }
  show s.lastConfigurations = some s.taken
  rcases hskips with ⟨hreq, hmissing⟩ | hlast
  · rw [htaken] at hmissing
    exact absurd (happlicable.2 hreq) hmissing
  · rw [← hlast, htaken]

/-- The configurations are applied. -/
theorem Inv.call {new : Configurations α} {conf : β}
    (hrecv : s.apply = .received new) (hskips : ¬ s.skips requiredProvider new)
    (hbuilds : Builds new conf) :
    Inv requiredProvider Builds { s with
      apply := .select
      lastConfigurations := some new
      calls := s.calls ++ [⟨new, conf⟩] } := by
  have htaken : new = s.taken := by
    have hsettled := h.settled (by rw [hrecv]; nofun)
    rwa [State.Settled, hrecv] at hsettled
  simp only [skips, not_or, not_and, not_not] at hskips
  obtain ⟨hpresent, hchg⟩ := hskips
  refine { h with
    settled := fun _ _ => congrArg some htaken
    last := by simp
    built := ?_
    required := fun _ hreq => ?_
    changes := ?_ }
  · intro call hcall
    rcases mem_append.mp hcall with hold | hnew
    · exact h.built call hold
    · rw [mem_singleton.mp hnew]
      exact hbuilds
  · obtain ⟨earlier, ⟨later, hpre⟩, hearlier⟩ := h.past
    have hlook : latest earlier requiredProvider ≠ none := by
      rw [← lookup_gathered, ← hearlier, ← htaken]
      exact fun hnone => lookup_eq_none.mp hnone (hpresent hreq)
    show latest s.consumed requiredProvider ≠ none
    rw [← hpre]
    exact latest_append_ne_none hlook later
  · refine isChain_append.mpr ⟨h.changes, .singleton _, ?_⟩
    intro call hcall call' hcall'
    -- the call before was for the last configurations
    have hlast : s.lastConfigurations = some call.configurations := by
      rw [h.last, Option.mem_def.mp hcall]
      rfl
    obtain rfl : ⟨new, conf⟩ = call' := by simpa using hcall'
    intro heq
    exact hchg (by rw [hlast, heq])

end

theorem inv_of_reachable [DecidableEq α] (h : (watcher requiredProvider Builds).Reachable s) :
    Inv requiredProvider Builds s := by
  refine System.invariant (Inv requiredProvider Builds) ?_ ?_ h
  · rintro s rfl
    exact inv_start
  · intro s l s' hinv hst
    match l with
    | .provide m =>
      obtain rfl := hst
      have hsplit : s.provided ++ [m] = s.consumed ++ (s.messages ++ [m]) := by
        rw [hinv.split, append_assoc]
      exact { hinv with split := hsplit }
    | .sendFirst | .send =>
      obtain ⟨-, -, rfl⟩ := hst
      exact hinv.deliver
    | .skip =>
      obtain ⟨-, -, rfl⟩ := hst
      exact { hinv with }
    | .receive =>
      obtain ⟨-, m, rest, hmsgs, rfl⟩ := hst
      exact hinv.handle hmsgs
    | .apply =>
      obtain ⟨new, hrecv, ⟨hskips, rfl⟩ | ⟨hskips, conf, hbuilds, rfl⟩⟩ := hst
      · exact hinv.skip hrecv hskips
      · exact hinv.call hrecv hskips hbuilds
    | .receiveReturn =>
      obtain rfl := hst
      exact { hinv with }
    | .applyReturn =>
      obtain rfl := hst
      exact { hinv with settled := fun h => absurd rfl h }

/-! ## Convergence -/

/-- **Convergence**: when both loops wait, the listeners were last given what is built out
    of the last configuration of every provider.  They are not called before the required
    provider has sent one, and not twice in a row for the same configurations. -/
theorem watcher_converges [DecidableEq α] (h : (watcher requiredProvider Builds).Reachable s) :
    (s.Idle → (∃ pvd, latest s.provided pvd ≠ none) →
      (requiredProvider ≠ "" → latest s.provided requiredProvider ≠ none) →
      ∃ call, s.calls.getLast? = some call ∧ Builds call.configurations call.conf ∧
        ∀ pvd, call.configurations.lookup pvd = latest s.provided pvd) ∧
    (s.calls ≠ [] → requiredProvider ≠ "" → latest s.consumed requiredProvider ≠ none) ∧
    s.calls.IsChain fun call call' => call.configurations ≠ call'.configurations := by
  have hinv := inv_of_reachable h
  refine ⟨?_, hinv.required, hinv.changes⟩
  rintro ⟨hmsgs, -, hselect, hready⟩ ⟨pvd, hpvd⟩ hreq
  have hall : s.consumed = s.provided := by rw [hinv.split, hmsgs, append_nil]
  have houtput : s.output = false := by
    by_contra hne
    exact hready ⟨Bool.not_eq_false _ ▸ hne, hselect⟩
  have htaken : s.taken = gathered s.provided := by
    rw [hinv.offered houtput, hinv.current, hall]
  have hlook : ∀ pvd, s.taken.lookup pvd = latest s.provided pvd := by
    intro pvd
    rw [htaken, lookup_gathered]
  have happlicable : Applicable requiredProvider s.taken := by
    refine ⟨fun hempty => ?_, fun hne => ?_⟩
    · rw [← hlook, hempty] at hpvd
      exact hpvd (lookup_empty _)
    · by_contra hmissing
      exact hreq hne ((hlook _).symm.trans (lookup_eq_none.mpr hmissing))
  have hsettled := hinv.settled (by rw [hselect]; nofun)
  rw [State.Settled, hselect] at hsettled
  have hlast := hinv.last.symm.trans (hsettled happlicable)
  obtain ⟨call, hcall, hconfigurations⟩ := Option.map_eq_some_iff.mp hlast
  refine ⟨call, hcall, hinv.built call (mem_of_getLast? hcall), fun pvd => ?_⟩
  rw [hconfigurations, hlook]

def routerMessage (pvd : String) (router : ℕ) : Message ℕ where
  providerName := pvd
  configuration := some ⟨some ⟨some router, none, none, none, none⟩, none, none, none⟩

/-- Two messages of a provider, the second of which arrives while the first is looked at. -/
theorem watcher_two : ∃ s : State ℕ (Configurations ℕ),
    (watcher "file" Eq).Reachable s ∧ s.Idle ∧ s.calls.length = 2 ∧
      ∃ call, s.calls.getLast? = some call ∧ call.configurations = call.conf ∧
        ∀ pvd, call.configurations.lookup pvd =
          latest [routerMessage "file" 1, routerMessage "file" 2] pvd := by
  have hrun : ∃ s : State ℕ (Configurations ℕ), (watcher "file" Eq).Run start
      [.provide (routerMessage "file" 1), .skip, .receive, .sendFirst,
       .provide (routerMessage "file" 2), .skip, .receive, .apply, .sendFirst, .apply, .skip] s ∧
      s.Idle ∧ s.calls.length = 2 ∧
      s.provided = [routerMessage "file" 1, routerMessage "file" 2] := by
    refine ⟨_, .cons _ rfl <| .cons _ ⟨rfl, nofun, rfl⟩ <|
      .cons _ ⟨rfl, _, _, rfl, rfl⟩ <| .cons _ ⟨rfl, ⟨rfl, rfl⟩, rfl⟩ <|
      .cons _ rfl <| .cons _ ⟨rfl, nofun, rfl⟩ <| .cons _ ⟨rfl, _, _, rfl, rfl⟩ <|
      .cons _ ⟨_, rfl, .inr ⟨by unfold skips; decide, _, rfl, rfl⟩⟩ <|
      .cons _ ⟨rfl, ⟨rfl, rfl⟩, rfl⟩ <|
      .cons _ ⟨_, rfl, .inr ⟨by unfold skips; decide, _, rfl, rfl⟩⟩ <|
      .cons _ ⟨rfl, nofun, rfl⟩ <| .nil _, ⟨rfl, rfl, rfl, nofun⟩, rfl, rfl⟩
  obtain ⟨s, hrun, hidle, hlen, hprovided⟩ := hrun
  have hreach := System.Reachable.of_run (.init rfl) hrun
  have hlatest := (watcher_converges hreach).1 hidle
  rw [hprovided] at hlatest
  exact ⟨s, hreach, hidle, hlen, hlatest ⟨"file", by decide⟩ fun _ => by decide⟩

/-! ## Progress -/

/-- What the loops have still to do.  A message costs more than the offer that follows
    it, and an offer more than what the other loop does with it. -/
def State.rank (s : State α β) : ℕ :=
  6 * s.messages.length + (if s.output then 4 else 0) +
    (if s.receive = .prefer then 1 else 0) +
    match s.apply with
    | .received _ => 2
    | _ => 0

theorem rank_deliver (hready : s.ready) : s.deliver.rank < s.rank := by
  obtain ⟨houtput, hselect⟩ := hready
  have hlt : 6 * s.messages.length + 3 <
      6 * s.messages.length + 4 + if s.receive = .prefer then 1 else 0 := by omega
  simpa [rank, deliver, houtput, hselect] using hlt

theorem rank_handle [DecidableEq α] (s : State α β) (m : Message α) :
    (s.handle m).rank ≤ s.rank + 4 := by
  rcases handle_cases s m with ⟨heq, -⟩ | heq
  · rw [heq]
    omega
  · rw [heq]
    simp only [rank, if_true]
    omega

/-- Every step of a loop brings both nearer to the state where they wait. -/
theorem rank_step [DecidableEq α] {l : Label α} (hown : l.own = true)
    (hst : (watcher requiredProvider Builds).step s l s') : s'.rank < s.rank := by
  cases l with
  | provide _ | receiveReturn | applyReturn => cases hown
  | sendFirst | send =>
    obtain ⟨-, hready, rfl⟩ := hst
    exact rank_deliver hready
  | skip =>
    obtain ⟨hprefer, -, rfl⟩ := hst
    simp [rank, hprefer]
  | receive =>
    obtain ⟨hselect, m, rest, hmsgs, rfl⟩ := hst
    refine (rank_handle _ m).trans_lt ?_
    simp only [rank, hselect, hmsgs, length_cons, if_true, reduceCtorEq, if_false]
    omega
  | apply =>
    obtain ⟨new, hrecv, ⟨-, rfl⟩ | ⟨-, conf, -, rfl⟩⟩ := hst
    all_goals simp [rank, hrecv]

/-- **Progress**: unless both loops wait, one of them can take a step. -/
theorem idle_or_step [DecidableEq α] (htotal : ∀ configurations, ∃ conf, Builds configurations conf)
    (hreceive : s.receive ≠ .returned) (happly : s.apply ≠ .returned) :
    s.Idle ∨ ∃ l s', l.own = true ∧ (watcher requiredProvider Builds).step s l s' := by
  match hpc : s.receive with
  | .returned => exact absurd hpc hreceive
  | .prefer =>
    by_cases hready : s.ready
    · exact .inr ⟨.sendFirst, _, rfl, hpc, hready, rfl⟩
    · exact .inr ⟨.skip, _, rfl, hpc, hready, rfl⟩
  | .select =>
    by_cases hready : s.ready
    · exact .inr ⟨.send, _, rfl, hpc, hready, rfl⟩
    match happlying : s.apply with
    | .returned => exact absurd happlying happly
    | .received newConfigs =>
      obtain ⟨conf, hbuilds⟩ := htotal newConfigs
      by_cases hskips : s.skips requiredProvider newConfigs
      · exact .inr ⟨.apply, _, rfl, newConfigs, happlying, .inl ⟨hskips, rfl⟩⟩
      · exact .inr ⟨.apply, _, rfl, newConfigs, happlying, .inr ⟨hskips, conf, hbuilds, rfl⟩⟩
    | .select =>
      match hmessages : s.messages with
      | [] => exact .inl ⟨hmessages, hpc, happlying, hready⟩
      | m :: rest => exact .inr ⟨.receive, _, rfl, hpc, m, rest, hmessages, rfl⟩

/-- **The loops come to rest**: without further messages they take at most as many steps as the
    rank says, in any order, and only when both wait can they take no more. -/
theorem loops_rest [DecidableEq α] (htotal : ∀ configurations, ∃ conf, Builds configurations conf)
    {ls : List (Label α)} (hrun : (watcher requiredProvider Builds).Run s ls s')
    (hown : ∀ l ∈ ls, l.own = true) :
    ls.length ≤ s.rank ∧ (s'.receive ≠ .returned → s'.apply ≠ .returned →
      s'.Idle ∨ ∃ l s'', l.own = true ∧ (watcher requiredProvider Builds).step s' l s'') := by
  refine ⟨?_, idle_or_step htotal⟩
  induction hrun with
  | nil => exact Nat.zero_le _
  | cons l hst _ ih =>
    have hlt := rank_step (hown l (.head _)) hst
    have hrest := ih fun l hl => hown l (.tail _ hl)
    rw [length_cons]
    omega

/-- Two messages that have been sent are received and applied in nine steps. -/
theorem two_messages_rest : ∃ (s s' : State ℕ (Configurations ℕ)) (ls : List (Label ℕ)),
    (watcher "file" Eq).Run start
      [.provide (routerMessage "file" 1), .provide (routerMessage "file" 2)] s ∧
    (watcher "file" Eq).Run s ls s' ∧ (∀ l ∈ ls, l.own = true) ∧ s'.calls.length = 2 ∧ s'.Idle ∧
      ls.length = 9 ∧ 9 ≤ s.rank := by
  have hrun : ∃ s s' : State ℕ (Configurations ℕ),
      (watcher "file" Eq).Run start
        [.provide (routerMessage "file" 1), .provide (routerMessage "file" 2)] s ∧
      (watcher "file" Eq).Run s [.skip, .receive, .sendFirst, .skip, .receive, .apply, .sendFirst,
        .apply, .skip] s' ∧ s'.calls.length = 2 ∧ s'.Idle := by
    refine ⟨_, _, .cons _ rfl <| .cons _ rfl <| .nil _, .cons _ ⟨rfl, nofun, rfl⟩ <|
      .cons _ ⟨rfl, _, _, rfl, rfl⟩ <| .cons _ ⟨rfl, ⟨rfl, rfl⟩, rfl⟩ <|
      .cons _ ⟨rfl, nofun, rfl⟩ <| .cons _ ⟨rfl, _, _, rfl, rfl⟩ <|
      .cons _ ⟨_, rfl, .inr ⟨by unfold skips; decide, _, rfl, rfl⟩⟩ <|
      .cons _ ⟨rfl, ⟨rfl, rfl⟩, rfl⟩ <|
      .cons _ ⟨_, rfl, .inr ⟨by unfold skips; decide, _, rfl, rfl⟩⟩ <|
      .cons _ ⟨rfl, nofun, rfl⟩ <| .nil _, rfl, ⟨rfl, rfl, rfl, nofun⟩⟩
  obtain ⟨s, s', hprovide, hrun, hcalls, hidle⟩ := hrun
  exact ⟨s, s', _, hprovide, hrun, by decide, hcalls, hidle, rfl,
    (loops_rest (fun conf => ⟨conf, rfl⟩) hrun (by decide)).1⟩

end Ingress.Watcher
