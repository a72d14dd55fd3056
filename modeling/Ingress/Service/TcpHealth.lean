import Ingress.Framework.Journal
import Ingress.Service.Stream

/-! # Health Checkers of TCP Services

    `BuildTCP` creates a load balancer each time it is called for a service, and
    a health checker when the service asks for one.  The checkers are kept in a
    map of the manager, by the name that the call was given; `LaunchHealthCheck`
    launches what the map holds in the end.

    * `visits`: the services that a call builds, each with the name it was
      called by.  It depends on the configuration alone.
    * `build_spec`: what a call that succeeds has built and registered.
    * `checked_iff`: every load balancer that asks for it is checked exactly when
      no two of them were called by the same name. -/

open List Outcome Journal Prod

namespace Ingress.Service.Stream

/-! ## The code -/

/-- `LaunchHealthCheck`: the load balancers of the checkers it launches. -/
def Manager.launchHealthCheck (m : Manager) : Multiset Nat :=
  m.healthCheckers.entries.map Sigma.snd

/-- A call of `BuildTCP` by a router, with a depth of calls. -/
structure Call where
  provider : Option String
  serviceName : String
  depth : Nat
  deriving DecidableEq, Repr

/-- Calls of `BuildTCP` on one manager that all succeed, what they returned, and
    the manager after them. -/
inductive Built (env : Env) (configs : Finmap fun _ : String => Info StreamService) :
    List Call → List Handler → Manager → Prop where
  | new : Built env configs [] [] (newManager configs)
  | call {calls : List Call} {handlers : List Handler} {m m' : Manager} {handler : Handler}
      (c : Call) (before : Built env configs calls handlers m)
      (run : buildTCP env c.depth (rootCtx c.provider) c.serviceName m =
        some (.ok handler, m')) :
      Built env configs (calls ++ [c]) (handlers ++ [handler]) m'

/-! ## What is built -/

/-- `b` is `h`, or nested in it. -/
inductive Handler.Within (b : Handler) : Handler → Prop where
  | self : Within b b
  | child {service : WeightedService} {h : Handler} {children : List (WeightedService × Handler)}
      {wants : Bool} (hmem : (service, h) ∈ children) (hwithin : Within b h) :
      Within b (.weighted children wants)

/-- The load balancer asks for health checks. -/
def Handler.wantsHealthCheck : Handler → Bool
  | .servers _ _ wants => wants
  | .weighted _ wants => wants

/-- The load balancer is that of a health checker that is launched.  Checkers are
    created for load balancers of servers only. -/
def Handler.Checked (m : Manager) : Handler → Prop
  | .servers id _ _ => id ∈ m.launchHealthCheck
  | .weighted _ _ => False

/-- The services a weighted service refers to. -/
def StreamService.children (service : StreamService) : List WeightedService :=
  service.weighted.toList.flatMap WeightedRoundRobin.services

/-- The services that a call builds, with the names they are called by. -/
def visits (conf : String → Option StreamService) :
    Nat → Ctx → String → List (String × StreamService)
  | 0, _, _ => []
  | depth + 1, ctx, serviceName =>
    match conf (getQualifiedName ctx serviceName) with
    | none => []
    | some service =>
      (serviceName, service) :: service.children.flatMap fun child =>
        visits conf depth (addInContext ctx (getQualifiedName ctx serviceName)) child.name

/-- The service has servers, and a health check for them. -/
def StreamService.checksServers (service : StreamService) : Bool :=
  service.loadBalancer.any ServersLoadBalancer.healthCheck

/-- The service is a weighted one with a health check. -/
def StreamService.checksChildren (service : StreamService) : Bool :=
  service.weighted.any WeightedRoundRobin.healthCheck

/-- The names by which services with servers to check were called. -/
def checkedNames (visited : List (String × StreamService)) : List String :=
  (visited.filter fun v => v.2.checksServers).map fst

/-- The services that calls build. -/
def visitedBy (configs : Finmap fun _ : String => Info StreamService) (calls : List Call) :
    List (String × StreamService) :=
  calls.flatMap fun c =>
    visits (newManager configs).conf c.depth (rootCtx c.provider) c.serviceName

variable {env : Env} {m m' : Manager} {handler : Handler}

/-! ## One call -/

/-- From `m` to `m'`, the checkers of `log` were registered: each for a load
    balancer of its own that did not exist in `m`. -/
structure Registers (m m' : Manager) (log : List (String × Nat)) : Prop where
  conf : m'.conf = m.conf
  checkers : m'.healthCheckers = replay m.healthCheckers log
  le : m.balancers ≤ m'.balancers
  fresh : ∀ id ∈ log.map snd, m.balancers ≤ id ∧ id < m'.balancers
  nodup : (log.map snd).Nodup

theorem Registers.refl (m : Manager) : Registers m m [] where
  conf := rfl
  checkers := rfl
  le := le_rfl
  fresh := by simp
  nodup := by simp

variable {log : List (String × Nat)}

theorem Registers.trans {m₁ : Manager} {log' : List (String × Nat)}
    (h : Registers m m₁ log) (h' : Registers m₁ m' log') : Registers m m' (log ++ log') where
  conf := h'.conf.trans h.conf
  checkers := by rw [h'.checkers, h.checkers, replay_append]
  le := h.le.trans h'.le
  fresh := by
    intro id hid
    rw [map_append, mem_append] at hid
    rcases hid with hid | hid
    · exact ⟨(h.fresh id hid).1, lt_of_lt_of_le (h.fresh id hid).2 h'.le⟩
    · exact ⟨h.le.trans (h'.fresh id hid).1, (h'.fresh id hid).2⟩
  nodup := by
    rw [map_append]
    refine h.nodup.append h'.nodup ?_
    intro id hid hid'
    have := (h.fresh id hid).2
    have := (h'.fresh id hid').1
    omega

/-- The load balancers of `ids` are those of the servers within `handlers` that
    ask for health checks, and `visited` are the services they were built for. -/
structure Describes (handlers : List Handler) (visited : List (String × StreamService))
    (log : List (String × Nat)) : Prop where
  names : (log.map fst).Perm (checkedNames visited)
  servers : ∀ id, id ∈ log.map snd ↔
    ∃ h ∈ handlers, ∃ addresses, Handler.Within (.servers id addresses true) h
  weighted : (∃ v ∈ visited, v.2.checksChildren = true) ↔
    ∃ h ∈ handlers, ∃ children, Handler.Within (.weighted children true) h

theorem Describes.nil : Describes [] [] [] where
  names := by simp [checkedNames]
  servers := by simp
  weighted := by simp

variable {handlers : List Handler}

theorem Describes.append {handlers' : List Handler}
    {visited visited' : List (String × StreamService)} {log' : List (String × Nat)}
    (h : Describes handlers visited log) (h' : Describes handlers' visited' log') :
    Describes (handlers ++ handlers') (visited ++ visited') (log ++ log') where
  names := by
    simp only [checkedNames, map_append, filter_append]
    exact h.names.append h'.names
  servers := by
    intro id
    rw [map_append, mem_append, h.servers, h'.servers]
    simp only [mem_append, or_and_right, exists_or]
  weighted := by
    simp only [mem_append, or_and_right, exists_or]
    exact or_congr h.weighted h'.weighted

theorem Describes.perm {visited visited' : List (String × StreamService)}
    (h : Describes handlers visited log)
    (hperm : visited.Perm visited') : Describes handlers visited' log where
  names := h.names.trans ((hperm.filter _).map _)
  servers := h.servers
  weighted := by
    rw [← h.weighted]
    simp only [hperm.mem_iff]

theorem within_servers {b : Handler} {id : Nat} {addrs : List String} {wants : Bool} :
    b.Within (.servers id addrs wants) ↔ b = .servers id addrs wants := by
  constructor
  · intro h
    cases h with
    | self => rfl
  · rintro rfl
    exact .self

variable {children : List (WeightedService × Handler)}

theorem within_weighted {b : Handler} {wants : Bool} :
    b.Within (.weighted children wants) ↔
      b = .weighted children wants ∨ ∃ h ∈ children.map snd, b.Within h := by
  constructor
  · intro h
    cases h with
    | self => exact .inl rfl
    | child hmem hwithin => exact .inr ⟨_, mem_map_of_mem hmem, hwithin⟩
  · rintro (rfl | ⟨h, hmem, hwithin⟩)
    · exact .self
    · obtain ⟨⟨svc, h'⟩, hchild, rfl⟩ := mem_map.mp hmem
      exact .child hchild hwithin

variable {serviceName : String}

/-- A load balancer of servers has one checker, if any. -/
theorem newServers_spec {lb : ServersLoadBalancer}
    (hrun : newServers tcp env serviceName lb m = some (.ok handler, m')) :
    ∃ log, Registers m m' log ∧ Describes [handler] [(serviceName, ⟨some lb, none⟩)] log := by
  cases hrun
  refine ⟨if lb.healthCheck then [(serviceName, m.balancers)] else [], ?_, ?_⟩
  · cases hcheck : lb.healthCheck with
    | false | true => exact ⟨rfl, by simp [replay, tcp], Nat.le_succ _, by simp, by simp⟩
  · cases hcheck : lb.healthCheck with
    | false | true =>
      exact ⟨by simp [checkedNames, StreamService.checksServers, hcheck],
        by simp [within_servers, tcp], by simp [within_servers, StreamService.checksChildren]⟩

/-- Registering the parent as an updater of a child changes nothing here. -/
theorem addChild_ok {b : String → Prog Manager String Handler}
    {check : Bool} {svc : WeightedService} {child : WeightedService × Handler}
    (hrun : addChild tcp b serviceName check svc m = some (.ok child, m')) :
    b svc.name m = some (.ok child.2, m') := by
  obtain ⟨h, m₁, hbuild, hadd⟩ := exists_ok_of_bind hrun
  cases check with
  | false =>
    cases hadd
    exact hbuild
  | true =>
    cases hupdater : h.registerStatusUpdater with
    | error err =>
      rw [hupdater] at hadd
      cases hadd
    | ok _ =>
      rw [hupdater] at hadd
      cases hadd
      exact hbuild

/-- The children of a weighted service, from what is known of each. -/
theorem addChildren_spec {b : String → Prog Manager String Handler}
    {visitsOf : String → List (String × StreamService)} {conf : String → Option StreamService}
    (hb : ∀ name m m' h, m.conf = conf → b name m = some (.ok h, m') →
      ∃ log, Registers m m' log ∧ Describes [h] (visitsOf name) log)
    {check : Bool} {services : List WeightedService} (hconf : m.conf = conf)
    (hrun : forEach (addChild tcp b serviceName check) services m =
      some (.ok children, m')) :
    ∃ log, Registers m m' log ∧
      Describes (children.map snd) (services.flatMap fun s => visitsOf s.name) log := by
  induction services generalizing m children with
  | nil =>
    cases hrun
    exact ⟨[], .refl _, .nil⟩
  | cons svc services ih =>
    obtain ⟨child, m₁, hchild, hrun⟩ := exists_ok_of_bind hrun
    obtain ⟨rest, m₂, hrest, hrun⟩ := exists_ok_of_bind hrun
    cases hrun
    obtain ⟨log, hreg, hdesc⟩ := hb _ _ _ _ hconf (addChild_ok hchild)
    obtain ⟨log', hreg', hdesc'⟩ := ih (hreg.conf.trans hconf) hrest
    exact ⟨log ++ log', hreg.trans hreg', hdesc.append hdesc'⟩

/-- A weighted service has the checkers of its children. -/
theorem Describes.weightedService {visited : List (String × StreamService)}
    (h : Describes (children.map snd) visited log) (svc : String) (w : WeightedRoundRobin) :
    Describes [.weighted children w.healthCheck] ((svc, ⟨none, some w⟩) :: visited) log where
  names := by
    exact h.names
  servers := by
    intro id
    rw [h.servers]
    simp only [mem_singleton, exists_eq_left, within_weighted, reduceCtorEq, false_or]
    constructor
    · rintro ⟨b, hb, addrs, hwithin⟩
      exact ⟨addrs, b, hb, hwithin⟩
    · rintro ⟨addrs, b, hb, hwithin⟩
      exact ⟨b, hb, addrs, hwithin⟩
  weighted := by
    simp only [mem_singleton, exists_eq_left, within_weighted]
    constructor
    · rintro ⟨v, hv, hcheck⟩
      rcases mem_cons.mp hv with rfl | hv
      · refine ⟨children, .inl ?_⟩
        rw [show w.healthCheck = true from hcheck]
      · obtain ⟨b, hb, grandchildren, hwithin⟩ := h.weighted.mp ⟨v, hv, hcheck⟩
        exact ⟨grandchildren, .inr ⟨b, hb, hwithin⟩⟩
    · rintro ⟨grandchildren, heq | ⟨b, hb, hwithin⟩⟩
      · refine ⟨_, .head _, ?_⟩
        exact (Handler.weighted.inj heq).2.symm
      · obtain ⟨v, hv, hcheck⟩ := h.weighted.mpr ⟨b, hb, grandchildren, hwithin⟩
        exact ⟨v, .tail _ hv, hcheck⟩

/-- **One call**: what it built and registered.  The services it visits depend on
    the configuration alone, their order on the shuffling. -/
theorem build_spec {depth : Nat} {ctx : Ctx}
    (hrun : buildTCP env depth ctx serviceName m = some (.ok handler, m')) :
    ∃ log, Registers m m' log ∧ Describes [handler] (visits m.conf depth ctx serviceName) log := by
  induction depth generalizing ctx serviceName m m' handler with
  | zero => cases hrun
  | succ depth ih =>
    obtain ⟨m₁, m₂, hget, hrun⟩ := exists_ok_of_bind hrun
    cases hget
    have hconf : m.conf (getQualifiedName ctx serviceName) =
        (m.configs.lookup (getQualifiedName ctx serviceName)).map Info.conf := rfl
    unfold visits
    cases hlook : m.configs.lookup (getQualifiedName ctx serviceName) with
    | none =>
      simp only [hlook] at hrun
      cases hrun
    | some info =>
      obtain ⟨⟨lb, w⟩, err, status⟩ := info
      rw [hconf, hlook]
      simp only [hlook] at hrun
      cases lb with
      | some lb =>
        cases w with
        | some w => cases hrun
        | none => exact newServers_spec hrun
      | none =>
        cases w with
        | none => cases hrun
        | some w =>
          obtain ⟨services, m₁, hshuffle, hrun⟩ := exists_ok_of_bind hrun
          cases hshuffle
          obtain ⟨kids, m₂, hkids, hrun⟩ := exists_ok_of_bind hrun
          cases hrun
          obtain ⟨log, hreg, hdesc⟩ :=
            addChildren_spec (fun name m₁ m₂ h hsame hbuild => hsame ▸ ih hbuild) rfl hkids
          refine ⟨log, ⟨hreg.conf, hreg.checkers, hreg.le, hreg.fresh, hreg.nodup⟩, ?_⟩
          apply (hdesc.weightedService serviceName w).perm
          refine List.Perm.cons _ ?_
          rw [show StreamService.children ⟨none, some w⟩ = w.services by
            simp [StreamService.children]]
          exact (env.rand.shuffle_perm m.draws w.services).flatMap_right _

/-! ## All calls -/

theorem built_spec {configs : Finmap fun _ : String => Info StreamService} {calls : List Call}
    (h : Built env configs calls handlers m) :
    ∃ log, Registers (newManager configs) m log ∧
      Describes handlers (visitedBy configs calls) log := by
  induction h with
  | new => exact ⟨[], .refl _, .nil⟩
  | call c pre run ih =>
    obtain ⟨log, hreg, hdesc⟩ := ih
    obtain ⟨log', hreg', hdesc'⟩ := build_spec run
    rw [hreg.conf] at hdesc'
    refine ⟨log ++ log', hreg.trans hreg', ?_⟩
    have happend := hdesc.append hdesc'
    simpa [visitedBy] using happend

theorem mem_launchHealthCheck {id : Nat} :
    id ∈ m.launchHealthCheck ↔ ∃ name, m.healthCheckers.lookup name = some id := by
  unfold Manager.launchHealthCheck
  simp only [Multiset.mem_map, Sigma.exists, Finmap.lookup_eq_some_iff]
  constructor
  · rintro ⟨name, id, hmem, rfl⟩
    exact ⟨name, hmem⟩
  · rintro ⟨name, hmem⟩
    exact ⟨name, id, hmem, rfl⟩

/-- Every load balancer of servers that asks for health checks is checked. -/
def ServersChecked (m : Manager) (handlers : List Handler) : Prop :=
  ∀ handler ∈ handlers, ∀ id addresses, Handler.Within (.servers id addresses true) handler →
    Handler.Checked m (.servers id addresses true)

/-- Every load balancer that asks for health checks is checked, the weighted ones
    too. -/
def AllChecked (m : Manager) (handlers : List Handler) : Prop :=
  ∀ handler ∈ handlers, ∀ b : Handler, b.Within handler → b.wantsHealthCheck = true →
    b.Checked m

theorem allChecked_iff (m : Manager) (handlers : List Handler) :
    AllChecked m handlers ↔ ServersChecked m handlers ∧
      ¬ ∃ handler ∈ handlers, ∃ children, Handler.Within (.weighted children true) handler := by
  constructor
  · intro hall
    refine ⟨fun handler hmem id addrs hwithin => hall handler hmem _ hwithin rfl, ?_⟩
    rintro ⟨handler, hmem, children, hwithin⟩
    exact hall handler hmem _ hwithin rfl
  · rintro ⟨hservers, hweighted⟩ handler hmem b hwithin hwants
    cases b with
    | servers id addrs wants =>
      obtain rfl : wants = true := hwants
      exact hservers handler hmem id addrs hwithin
    | weighted children wants =>
      obtain rfl : wants = true := hwants
      exact absurd ⟨handler, hmem, children, hwithin⟩ hweighted

/-- **Health checks**: all load balancers of servers that ask for them are checked
    exactly when no two were called by the same name.  Weighted services are
    never checked themselves, so for all load balancers to be checked, no
    weighted service may ask for it. -/
theorem checked_iff {configs : Finmap fun _ : String => Info StreamService} {calls : List Call}
    {handlers : List Handler} (h : Built env configs calls handlers m) :
    (ServersChecked m handlers ↔ (checkedNames (visitedBy configs calls)).Nodup) ∧
    (AllChecked m handlers ↔ (checkedNames (visitedBy configs calls)).Nodup ∧
      ∀ v ∈ visitedBy configs calls, v.2.checksChildren = false) := by
  obtain ⟨log, hreg, hdesc⟩ := built_spec h
  have hservers : ServersChecked m handlers ↔ (checkedNames (visitedBy configs calls)).Nodup := by
    rw [← hdesc.names.nodup_iff, ← survive_iff hreg.nodup]
    -- the checkers that are launched are what is left of those registered
    have hlaunched : ∀ id, id ∈ m.launchHealthCheck ↔ ∃ name, last name log = some id := by
      intro id
      rw [mem_launchHealthCheck, hreg.checkers]
      simp [lookup_replay, newManager]
    constructor
    · intro hall id hid
      obtain ⟨handler, hmem, addrs, hwithin⟩ := (hdesc.servers id).mp hid
      exact (hlaunched id).mp (hall handler hmem id addrs hwithin)
    · intro hall handler hmem id addrs hwithin
      exact (hlaunched id).mpr
        (hall id ((hdesc.servers id).mpr ⟨handler, hmem, addrs, hwithin⟩))
  refine ⟨hservers, ?_⟩
  rw [allChecked_iff, hservers, ← hdesc.weighted]
  simp

/-- The services `a` and `b` of a provider, with health checks. -/
def checkedPair : Finmap fun _ : String => Info StreamService :=
  (Finmap.singleton "a@file" (.enabled ⟨some ⟨["10.0.0.1:80"], true⟩, none⟩)).insert
    "b@file" (.enabled ⟨some ⟨["10.0.0.2:80"], true⟩, none⟩)

/-- No shuffling, and all addresses are accepted. -/
def plainEnv : Env where
  rand := ⟨fun _ _ => 1⟩
  splitHostPort := fun _ => true

/-- Called for one router each, both are checked. -/
theorem checkedPair_checked :
    ∃ m, Built plainEnv checkedPair [⟨some "file", "a", 1⟩, ⟨some "file", "b", 1⟩]
        [.servers 0 ["10.0.0.1:80"] true, .servers 1 ["10.0.0.2:80"] true] m ∧
      ServersChecked m [.servers 0 ["10.0.0.1:80"] true, .servers 1 ["10.0.0.2:80"] true] ∧
      AllChecked m [.servers 0 ["10.0.0.1:80"] true, .servers 1 ["10.0.0.2:80"] true] := by
  have hfirst := @Built.call plainEnv checkedPair [] [] _ _ _ ⟨some "file", "a", 1⟩ .new rfl
  have hbuilt := Built.call ⟨some "file", "b", 1⟩ hfirst rfl
  refine ⟨_, hbuilt, ?_⟩
  have hiff := checked_iff hbuilt
  exact ⟨hiff.1.mpr (by decide), hiff.2.mpr (by decide)⟩

/-- Two routers for the service `a`: only the load balancer of the second is
    checked. -/
theorem checkedPair_unchecked :
    ∃ m, Built plainEnv checkedPair [⟨some "file", "a", 1⟩, ⟨some "file", "a", 1⟩]
        [.servers 0 ["10.0.0.1:80"] true, .servers 1 ["10.0.0.1:80"] true] m ∧
      m.launchHealthCheck = {1} ∧
      ¬ ServersChecked m [.servers 0 ["10.0.0.1:80"] true, .servers 1 ["10.0.0.1:80"] true] := by
  have hfirst := @Built.call plainEnv checkedPair [] [] _ _ _ ⟨some "file", "a", 1⟩ .new rfl
  have hbuilt := Built.call ⟨some "file", "a", 1⟩ hfirst rfl
  refine ⟨_, hbuilt, rfl, ?_⟩
  intro hall
  have hzero : 0 ∈ ({1} : Multiset Nat) := hall _ (.head _) 0 _ .self
  exact absurd hzero (by decide)

end Ingress.Service.Stream
