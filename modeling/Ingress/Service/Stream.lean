import Ingress.Framework.Outcome
import Ingress.Framework.Reference
import Ingress.Service.Context

/-! # TCP and UDP Services

    The builders of TCP and UDP services (`pkg/server/service/tcp` and
    `pkg/server/service/udp`).  A service is a load balancer of servers or a
    weighted service, which refers to other services by name; the builder
    follows the references.

    * `buildTCP`, `buildUDP`: the code, with a bound on the depth of calls.
    * `refs`: the reference graph of a configuration.
    * `buildTCP_buildUDP_end_iff`: when building ends, and with which outcome. -/

open Outcome Reference

namespace Ingress.Service.Stream

/-! ## Configuration -/

/-- A reference of a weighted service. -/
structure WeightedService where
  name : String
  weight : Option Int
  deriving DecidableEq, Repr

/-- The servers of a load balancer, by address. -/
structure ServersLoadBalancer where
  servers : List String
  healthCheck : Bool
  deriving DecidableEq, Repr

/-- A weighted service. -/
structure WeightedRoundRobin where
  services : List WeightedService
  healthCheck : Bool
  deriving DecidableEq, Repr

structure StreamService where
  loadBalancer : Option ServersLoadBalancer
  weighted : Option WeightedRoundRobin
  deriving DecidableEq, Repr

/-- What is built.  The load balancers of servers are numbered. -/
inductive Handler where
  | servers (id : Nat) (addresses : List String) (wantsHealthCheck : Bool)
  | weighted (children : List (WeightedService × Handler)) (wantsHealthCheck : Bool)

/-- `RegisterStatusUpdater` of a load balancer. -/
def Handler.registerStatusUpdater (handler : Handler) : Except String Unit :=
  let wants :=
    match handler with
    | .servers _ _ wantsHealthCheck => wantsHealthCheck
    | .weighted _ wantsHealthCheck => wantsHealthCheck
  if wants then .ok ()
  else .error "healthCheck not enabled in config for this weighted service"

/-- A manager: the configurations, the health checkers by service name (with the
    load balancer they check), and how often its random source was used. -/
structure Manager where
  configs : Finmap fun _ : String => Info StreamService
  healthCheckers : Finmap fun _ : String => Nat
  balancers : Nat
  draws : Nat

/-- What the two protocols differ in: their errors, and health checks. -/
structure Protocol where
  missing : String → String
  untyped : String → String
  healthChecks : Bool

/-- TCP services. -/
def tcp : Protocol where
  missing := fun name => "the service " ++ quote name ++ " does not exist"
  untyped := fun name => "the service " ++ quote name ++ " does not have any type defined"
  healthChecks := true

/-- UDP services. -/
def udp : Protocol where
  missing := fun name => "the UDP service " ++ quote name ++ " does not exist"
  untyped := fun name => "the UDP service " ++ quote name ++ " does not have any type defined"
  healthChecks := false

/-- What a builder is given: its random source, and which addresses
    `net.SplitHostPort` accepts.  Dialers and proxies are taken to be built. -/
structure Env where
  rand : Rand
  splitHostPort : String → Bool

/-! ## The code -/

/-- `AddError` on a service. -/
def Manager.addError (m : Manager) (name err : String) : Manager :=
  match m.configs.lookup name with
  | none => m
  | some info => { m with configs := m.configs.insert name (info.addError err true) }

/-- Fail with an error that is added to the service. -/
def fail {α : Type} (name err : String) : Prog Manager String α := do
  modify fun m => m.addError name err
  throw err

/-- `shuffle` with the random source of the manager. -/
def shuffle {α : Type} (env : Env) (values : List α) : Prog Manager String (List α) := do
  let m ← get
  modify fun m => { m with draws := m.draws + 1 }
  pure (env.rand.shuffle m.draws values)

/-- The error of a service of two types. -/
def multiTypes : String :=
  "cannot create service: multi-types service not supported, consider declaring two different pieces of service instead"

/-- A load balancer of servers. -/
def newServers (p : Protocol) (env : Env) (serviceName : String) (lb : ServersLoadBalancer) :
    Prog Manager String Handler := do
  let servers ← shuffle env lb.servers
  let m ← get
  let wants := p.healthChecks && lb.healthCheck
  modify fun m => { m with
    balancers := m.balancers + 1
    healthCheckers :=
      if wants then m.healthCheckers.insert serviceName m.balancers else m.healthCheckers }
  -- servers whose address is not a host and a port are skipped
  pure (.servers m.balancers (servers.filter env.splitHostPort) wants)

/-- A child of a weighted service. -/
def addChild (p : Protocol) (build : String → Prog Manager String Handler) (serviceName : String)
    (healthCheck : Bool) (service : WeightedService) :
    Prog Manager String (WeightedService × Handler) := do
  let handler ← build service.name
  if p.healthChecks && healthCheck then
    match handler.registerStatusUpdater with
    | .ok () => pure (service, handler)
    | .error err =>
      throw ("cannot register " ++ service.name ++ " as updater for " ++ serviceName ++ ": " ++ err)
  else pure (service, handler)

/-- A weighted service. -/
def newWeighted (p : Protocol) (env : Env) (build : String → Prog Manager String Handler)
    (serviceName : String) (w : WeightedRoundRobin) : Prog Manager String Handler := do
  let services ← shuffle env w.services
  let children ← forEach (addChild p build serviceName w.healthCheck) services
  pure (.weighted children (p.healthChecks && w.healthCheck))

/-- The two builders, with a bound on the depth of their calls. -/
def build (p : Protocol) (env : Env) : Nat → Ctx → String → Prog Manager String Handler
  | 0, _, _ => stuck
  | depth + 1, rootCtx, serviceName => do
    let serviceQualifiedName := getQualifiedName rootCtx serviceName
    let ctx := addInContext rootCtx serviceQualifiedName
    let m ← get
    match m.configs.lookup serviceQualifiedName with
    | none => throw (p.missing serviceQualifiedName)
    | some info =>
      match info.conf.loadBalancer, info.conf.weighted with
      | some _, some _ => fail serviceQualifiedName multiTypes
      | some lb, none => newServers p env serviceName lb
      | none, some w => newWeighted p env (build p env depth ctx) serviceName w
      | none, none => fail serviceQualifiedName (p.untyped serviceQualifiedName)

def buildTCP : Env → Nat → Ctx → String → Prog Manager String Handler :=
  build tcp

def buildUDP : Env → Nat → Ctx → String → Prog Manager String Handler :=
  build udp

/-! ## The reference graph -/

/-- The configuration of a service. -/
def Manager.conf (m : Manager) (name : String) : Option StreamService :=
  (m.configs.lookup name).map Info.conf

/-- The services that a service refers to. -/
def refs (m : Manager) (name : String) : List String :=
  match m.conf name with
  | some ⟨none, some w⟩ => w.services.map fun service => resolve name service.name
  | _ => []

/-- The number of types of a service. -/
def StreamService.types (service : StreamService) : Nat :=
  service.loadBalancer.toList.length + service.weighted.toList.length

/-- A service that is missing or has not exactly one type. -/
def Broken (m : Manager) (name : String) : Prop :=
  ∀ service, m.conf name = some service → service.types ≠ 1

/-- No weighted service has a health check. -/
def NoHealthCheck (m : Manager) : Prop :=
  ∀ name service w, m.conf name = some service → service.weighted = some w →
    w.healthCheck = false

variable {p : Protocol} {env : Env} {m m₀ : Manager} {name : String}

theorem conf_addError (m : Manager) (name err : String) : (m.addError name err).conf = m.conf := by
  unfold Manager.addError
  split
  · rfl
  · next info hinfo => exact funext (map_conf_addError hinfo err true)

theorem refs_finite (m : Manager) : { name | refs m name ≠ [] }.Finite :=
  finite_of_lookup m.configs fun name hnone => by simp [refs, Manager.conf, hnone]

/-- The states of a manager with the configuration of `m₀`. -/
def SameConf (m₀ m : Manager) : Prop :=
  m.conf = m₀.conf

/-! ## Building what is grounded -/

theorem settles_fail {α : Type} {post : α → Prop} (name err : String) :
    Settles (SameConf m₀) (fail name err : Prog Manager String α) False post := by
  apply Settles.andThen
  · exact settles_modify fun m hm => (conf_addError m name err).trans hm
  · intro _ _
    exact settles_throw

theorem settles_shuffle {α : Type} (values : List α) :
    Settles (SameConf m₀) (shuffle env values) True fun l => ∀ a, a ∈ l ↔ a ∈ values := by
  refine settles_get fun m _ => ?_
  apply Settles.andThen
  · exact settles_modify fun m hm => hm
  · intro _ _
    exact settles_pure (by simp)

theorem settles_newServers (svc : String) (lb : ServersLoadBalancer) :
    Settles (SameConf m₀) (newServers p env svc lb) True fun _ => True := by
  refine (settles_shuffle lb.servers).andThen fun servers _ => settles_get fun m _ => ?_
  apply Settles.andThen
  · exact settles_modify fun m hm => hm
  · intro _ _
    exact settles_pure trivial

/-- A weighted service is built when its children are. -/
theorem settles_newWeighted {b : String → Prog Manager String Handler} {svc : String}
    {w : WeightedRoundRobin} (hno : w.healthCheck = false) (good : String → Prop)
    (hb : ∀ service ∈ w.services,
      Settles (SameConf m₀) (b service.name) (good service.name) fun _ => True) :
    Settles (SameConf m₀) (newWeighted p env b svc w)
      (∀ service ∈ w.services, good service.name) fun _ => True := by
  have hchild : ∀ service ∈ w.services,
      Settles (SameConf m₀) (addChild p b svc w.healthCheck service)
        (good service.name) fun _ => True := by
    intro service hsvc
    unfold addChild
    rw [hno, Bool.and_false]
    exact (hb service hsvc).followed fun handler _ _ => settles_pure trivial
  refine (settles_shuffle w.services).andThen fun services hmem => ?_
  have hall := settles_forEach fun service hsvc =>
    hchild service ((hmem service).mp hsvc)
  refine (hall.followed fun kids _ _ => settles_pure trivial).congr ?_ fun _ h => h
  simp [hmem]

theorem conf_of_lookup (hm : SameConf m₀ m) (name : String) :
    m₀.conf name = (m.configs.lookup name).map Info.conf := by
  rw [← show m.conf = m₀.conf from hm]
  rfl

/-- The services that `build` builds. -/
def Buildable (m : Manager) : String → Prop :=
  Sound (refs m) (Broken m)

variable {q : String}

open StreamService

/-- **One level**: a service is built when the services it refers to are. -/
theorem build_settles_step (hno : NoHealthCheck m₀) {depth : Nat}
    (ih : ∀ c, Refers (refs m₀) q c → ∀ ctx name, getQualifiedName ctx name = c →
      Settles (SameConf m₀) (build p env depth ctx name) (Buildable m₀ c) fun _ => True)
    {ctx : Ctx} (hq : getQualifiedName ctx name = q) :
    Settles (SameConf m₀) (build p env (depth + 1) ctx name) (Buildable m₀ q) fun _ => True := by
  -- all errors but those of the children are about a broken service
  have hbroken : Broken m₀ q → (False ↔ Buildable m₀ q) := fun h =>
    iff_of_false not_false fun hsound => hsound.not_broken h
  refine settles_get fun m hm => ?_
  rw [hq]
  have hconf := conf_of_lookup hm q
  cases hlook : m.configs.lookup q with
  | none =>
    rw [hlook] at hconf
    exact settles_throw.congr (hbroken (by simp [Broken, hconf])) fun _ h => h
  | some info =>
    rw [hlook] at hconf
    obtain ⟨⟨lb, w⟩, err, status⟩ := info
    cases lb with
    | some lb =>
      cases w with
      | some w =>
        exact (settles_fail q multiTypes).congr
          (hbroken (by simp [Broken, hconf, types])) fun _ h => h
      | none =>
        have hsound : Buildable m₀ q :=
          .intro (by simp [Broken, hconf, types]) (by simp [Refers, refs, hconf])
        exact (settles_newServers name lb).congr (iff_of_true trivial hsound) fun _ h => h
    | none =>
      cases w with
      | none =>
        exact (settles_fail q (p.untyped q)).congr
          (hbroken (by simp [Broken, hconf, types])) fun _ h => h
      | some w =>
        have hrefs : refs m₀ q = w.services.map fun service => resolve q service.name := by
          simp [refs, hconf]
        -- the children are built in the context of `q`
        have hchild : ∀ service, getQualifiedName (addInContext ctx q) service =
            resolve q service := by
          intro service
          rw [← hq]
          exact getQualifiedName_addInContext rfl service
        have hmem : ∀ service ∈ w.services, Refers (refs m₀) q (resolve q service.name) := by
          intro service hsvc
          unfold Refers
          rw [hrefs]
          exact List.mem_map_of_mem hsvc
        refine (settles_newWeighted (hno q _ w hconf rfl)
          (fun name => Buildable m₀ (resolve q name)) fun service hsvc =>
            ih _ (hmem service hsvc) _ _ (hchild service.name)).congr ?_ fun _ h => h
        constructor
        · intro hall
          refine .intro (by simp [Broken, hconf, types]) fun c hc => ?_
          unfold Refers at hc
          rw [hrefs] at hc
          obtain ⟨service, hsvc, rfl⟩ := List.mem_map.mp hc
          exact hall service hsvc
        · intro hsound service hsvc
          exact hsound.of_refers (hmem service hsvc)

/-- **Grounded services**: deep enough, the builder comes to an end, and it
    succeeds exactly on what is sound. -/
theorem build_settles (p : Protocol) (env : Env) (hno : NoHealthCheck m₀)
    (hground : Grounded (refs m₀) q) :
    ∃ bound, ∀ depth ≥ bound, ∀ ctx name, getQualifiedName ctx name = q →
      Settles (SameConf m₀) (build p env depth ctx name) (Buildable m₀ q) fun _ => True :=
  Grounded.eventually (fun q depth => ∀ ctx name, getQualifiedName ctx name = q →
      Settles (SameConf m₀) (build p env depth ctx name) (Buildable m₀ q) fun _ => True)
    (fun _ _ ih _ _ => build_settles_step hno ih) hground

/-! ## Chains that do not end -/

/-- Only weighted services refer to others. -/
theorem exists_service_of_refers {n c : String} (h : Refers (refs m) n c) :
    ∃ w service, m.conf n = some ⟨none, some w⟩ ∧ service ∈ w.services ∧
      resolve n service.name = c := by
  unfold Refers refs at h
  split at h
  · next w hconf =>
    obtain ⟨service, hsvc, hname⟩ := List.mem_map.mp h
    exact ⟨w, service, hconf, hsvc, hname⟩
  · cases h

theorem shuffle_run {α : Type} (env : Env) (vals : List α) (m : Manager) :
    shuffle env vals m =
      some (.ok (env.rand.shuffle m.draws vals), { m with draws := m.draws + 1 }) :=
  rfl

/-- **One level**: when the child that is built first gets stuck, so does the
    weighted service. -/
theorem build_stuck_step {w : WeightedRoundRobin} {svc : WeightedService}
    {rest : List WeightedService} {depth : Nat} {ctx : Ctx}
    (hq : getQualifiedName ctx name = q) (hconf : m.conf q = some ⟨none, some w⟩)
    (hfirst : env.rand.shuffle m.draws w.services = svc :: rest)
    (hstuck : build p env depth (addInContext ctx q) svc.name
      { m with draws := m.draws + 1 } = none) :
    build p env (depth + 1) ctx name m = none := by
  obtain ⟨info, hlook, hinfo⟩ := Option.map_eq_some_iff.mp hconf
  obtain ⟨conf, err, status⟩ := info
  obtain rfl : conf = ⟨none, some w⟩ := hinfo
  have hget : (get : Prog Manager String Manager) m = some (.ok m, m) := rfl
  unfold build
  rw [bind_of_ok hget, hq]
  simp only [hlook]
  unfold newWeighted
  -- the loop over the children gets stuck in its first turn
  rw [bind_of_ok (shuffle_run env w.services m), hfirst]
  apply bind_of_stuck
  apply forEach_of_stuck
  exact bind_of_stuck hstuck

/-- When some chain of references does not end, some shuffling of the weighted
    services makes the builder follow it for ever. -/
theorem build_stuck (p : Protocol) (h : ¬ Grounded (refs m₀) q) :
    ∃ rand : Rand, ∀ splitHostPort depth ctx name, getQualifiedName ctx name = q →
      build p ⟨rand, splitHostPort⟩ depth ctx name m₀ = none := by
  obtain ⟨f, hf₀, hf⟩ := not_acc_iff_exists_descending_chain.mp h
  choose w service hconf hservice hname using fun i => exists_service_of_refers (hf i)
  choose index hindex using fun i => List.mem_iff_getElem?.mp (hservice i)
  -- draw `m₀.draws + i` is made for the `i`-th service of the chain
  let rand := Rand.leading fun draw => index (draw - m₀.draws)
  refine ⟨rand, fun splitHostPort depth ctx name hq => ?_⟩
  suffices hall : ∀ depth i ctx name m, SameConf m₀ m → m.draws = m₀.draws + i →
      getQualifiedName ctx name = f i → build p ⟨rand, splitHostPort⟩ depth ctx name m = none from
    hall depth 0 ctx name m₀ rfl rfl (by rw [hq, hf₀])
  intro depth
  induction depth with
  | zero => intros; rfl
  | succ depth ih =>
    intro i ctx name m hm hdraws hq
    have hconf' : m.conf (f i) = some ⟨none, some (w i)⟩ := by
      rw [show m.conf = m₀.conf from hm]
      exact hconf i
    obtain ⟨rest, hfirst⟩ : ∃ rest, rand.shuffle m.draws (w i).services = service i :: rest := by
      apply Rand.leading_shuffle
      rw [hdraws, Nat.add_sub_cancel_left]
      exact hindex i
    apply build_stuck_step hq hconf' hfirst
    refine ih (i + 1) _ _ _ hm (by simp [hdraws, Nat.add_assoc]) ?_
    rw [← hq, getQualifiedName_addInContext rfl, hq]
    exact hname i

/-! ## When building ends -/

/-- Whatever the shuffling, the builder comes to an end, and it fails exactly
    when a service is reached that is missing, has not exactly one type, or
    depends on itself. -/
def EndsRight (build : Env → Nat → Ctx → String → Prog Manager String Handler) (m : Manager)
    (provider : Option String) (root : String) : Prop :=
  ∀ env, ∃ depth r m', build env depth (rootCtx provider) root m = some (r, m') ∧
    ((∃ err, r = .error err) ↔
      ∃ n, Reaches (refs m) (getQualifiedName (rootCtx provider) root) n ∧
        (Broken m n ∨ OnCycle (refs m) n))

theorem not_buildable_iff (m : Manager) (q : String) :
    ¬ Buildable m q ↔
      ∃ n, Reaches (refs m) q n ∧ (Broken m n ∨ OnCycle (refs m) n) := by
  unfold Buildable
  rw [sound_iff (refs_finite m)]
  push Not
  simp only [or_iff_not_imp_left]

/-- **When building ends**: exactly when no cycle is reached. -/
theorem endsRight_iff (p : Protocol) (hno : NoHealthCheck m) (provider : Option String)
    (root : String) :
    EndsRight (build p) m provider root ↔
      ∀ n, Reaches (refs m) (getQualifiedName (rootCtx provider) root) n →
        ¬ OnCycle (refs m) n := by
  rw [← grounded_iff (refs_finite m)]
  constructor
  · intro hends
    by_contra hground
    obtain ⟨rand, hstuck⟩ := build_stuck p hground
    obtain ⟨depth, r, m', hrun, _⟩ := hends ⟨rand, fun _ => true⟩
    rw [hstuck _ depth _ _ rfl] at hrun
    cases hrun
  · intro hground env
    obtain ⟨bound, hbound⟩ := build_settles p env hno hground
    obtain ⟨r, m', hrun, _, hout⟩ := hbound bound le_rfl _ _ rfl m rfl
    refine ⟨bound, r, m', hrun, ?_⟩
    rw [← not_buildable_iff]
    rcases hout with ⟨a, rfl, hsound, _⟩ | ⟨herr, hsound⟩
    · exact iff_of_false (fun ⟨err, h⟩ => by cases h) (not_not.mpr hsound)
    · exact iff_of_true herr hsound

/-- **`BuildTCP` and `BuildUDP` come to an end**, failing exactly when a broken
    service or a cycle is reached, if and only if no cycle is reached. -/
theorem buildTCP_buildUDP_end_iff (hno : NoHealthCheck m) (provider : Option String)
    (root : String) :
    (EndsRight buildTCP m provider root ↔
      ∀ n, Reaches (refs m) (getQualifiedName (rootCtx provider) root) n →
        ¬ OnCycle (refs m) n) ∧
    (EndsRight buildUDP m provider root ↔
      ∀ n, Reaches (refs m) (getQualifiedName (rootCtx provider) root) n →
        ¬ OnCycle (refs m) n) :=
  ⟨endsRight_iff tcp hno provider root, endsRight_iff udp hno provider root⟩

def newManager (configs : Finmap fun _ : String => Info StreamService) : Manager where
  configs
  healthCheckers := ∅
  balancers := 0
  draws := 0

/-- The load balancer `s`. -/
def serversOnly : Finmap fun _ : String => Info StreamService :=
  Finmap.singleton "s" (.enabled ⟨some ⟨["10.0.0.1:80"], false⟩, none⟩)

/-- A weighted service `w` over the load balancer `s`. -/
def overServers : Manager :=
  newManager (serversOnly.insert "w" (.enabled ⟨none, some ⟨[⟨"s", none⟩], false⟩⟩))

theorem overServers_noHealthCheck : NoHealthCheck overServers := by
  intro name svc w hconf hw
  obtain ⟨info, hlook, rfl⟩ := Option.map_eq_some_iff.mp hconf
  by_cases hname : name = "w"
  · subst hname
    cases hlook
    cases hw
    rfl
  · replace hlook : serversOnly.lookup name = some info := by
      rw [← hlook]
      exact (Finmap.lookup_insert_of_ne _ hname).symm
    by_cases hs : name = "s"
    · subst hs
      cases hlook
      cases hw
    · rw [Finmap.lookup_eq_none.mpr (by simpa [serversOnly] using hs)] at hlook
      cases hlook

theorem overServers_grounded : Grounded (refs overServers) "w" := by
  have hs : Grounded (refs overServers) "s" := .intro _ fun c hc => by cases hc
  refine .intro _ fun c hc => ?_
  rw [List.mem_singleton.mp (show c ∈ ["s"] from hc)]
  exact hs

/-- The service over the load balancer is built. -/
theorem overServers_end :
    NoHealthCheck overServers ∧ EndsRight buildTCP overServers none "w" ∧
      EndsRight buildUDP overServers none "w" := by
  have hcycle : ∀ n, Reaches (refs overServers) (getQualifiedName (rootCtx none) "w") n →
      ¬ OnCycle (refs overServers) n := fun n hreach =>
    (overServers_grounded.of_reaches hreach).not_onCycle
  have h := buildTCP_buildUDP_end_iff overServers_noHealthCheck none "w"
  exact ⟨overServers_noHealthCheck, h.1.mpr hcycle, h.2.mpr hcycle⟩

/-- A weighted service that refers to itself. -/
def selfReferring : Manager :=
  newManager (Finmap.singleton "a" (.enabled ⟨none, some ⟨[⟨"a", none⟩], false⟩⟩))

theorem selfReferring_stuck (p : Protocol) (env : Env) (depth : Nat) {m : Manager}
    (hm : SameConf selfReferring m) : build p env depth (rootCtx none) "a" m = none := by
  induction depth generalizing m with
  | zero => rfl
  | succ depth ih =>
    have hconf : m.conf "a" = some ⟨none, some ⟨[⟨"a", none⟩], false⟩⟩ := by
      rw [show m.conf = selfReferring.conf from hm]
      rfl
    have hfirst : env.rand.shuffle m.draws [WeightedService.mk "a" none] = [⟨"a", none⟩] :=
      List.perm_singleton.mp (env.rand.shuffle_perm m.draws _)
    exact build_stuck_step rfl hconf hfirst (ih hm)

/-- Neither builder ever comes to an end on it: the recursion has no check. -/
theorem selfReferring_hangs :
    (∀ env depth, buildTCP env depth (rootCtx none) "a" selfReferring = none) ∧
    (∀ env depth, buildUDP env depth (rootCtx none) "a" selfReferring = none) ∧
    ¬ EndsRight buildTCP selfReferring none "a" ∧ ¬ EndsRight buildUDP selfReferring none "a" := by
  have hstuck : ∀ p env depth, build p env depth (rootCtx none) "a" selfReferring = none :=
    fun p env depth => selfReferring_stuck p env depth rfl
  have hends : ∀ p, ¬ EndsRight (build p) selfReferring none "a" := by
    intro p hends
    obtain ⟨depth, r, m', hrun, _⟩ := hends ⟨⟨fun _ _ => 1⟩, fun _ => true⟩
    rw [hstuck p] at hrun
    cases hrun
  exact ⟨hstuck tcp, hstuck udp, hends tcp, hends udp⟩

end Ingress.Service.Stream
