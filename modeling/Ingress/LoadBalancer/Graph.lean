import Ingress.Framework.Propagation
import Ingress.LoadBalancer.Failover
import Ingress.LoadBalancer.Status

/-! # The Graph of Balancers

    HTTP services watch each other: a `wrr` or `hrw` balancer records in its
    status map which of its children are up, a failover records it of its two
    services, and each calls its updaters, the setters of its parents, when its
    own status changes.  The two kinds of balancers have the same `SetStatus`
    and treat their status map alike in `Add`, so they are not told apart.

    * `Graph`: which services were added where, and who was registered.
    * `Graph.network`: the setters as a network of slots.
    * `recorded_iff_up`: after every call on a server, what was added is recorded
      as up exactly when it is up. -/

open LTS Propagation Reference

namespace Ingress

/-- A service: a balancer of `B` or a failover of `F`. -/
inductive Node (B F : Type) where
  | balancer (b : B)
  | failover (f : F)
  deriving DecidableEq, Repr

/-- Where a service records the status of a child. -/
inductive Slot (B F : Type) where
  | child (b : B) (name : String)
  | service (f : F) (side : Side)
  deriving DecidableEq, Repr

/-- What `Add` was called with: a service, or a server (`none`). -/
structure Child (B F : Type) where
  name : String
  weight : Option Int
  handler : Option (Node B F)
  deriving DecidableEq, Repr

/-- The weight is positive: `Add` did not ignore the child. -/
def Child.Added {B F : Type} (c : Child B F) : Prop :=
  0 < c.weight.getD 1

instance {B F : Type} (c : Child B F) : Decidable c.Added :=
  inferInstanceAs (Decidable (0 < _))

/-- The children of the balancers, in the order they were added, the services of
    the failovers, and the updaters of each service: the setters of all its
    parents, in the order they were registered.  Children of one name of a
    balancer are the same, as a service is built once for each name. -/
structure Graph (B F : Type) where
  children : B → List (Child B F)
  services : F → Side → Node B F
  updaters : Node B F → List (Slot B F)
  mem_updaters_child : ∀ n b name,
    .child b name ∈ updaters n ↔ ∃ c ∈ children b, c.name = name ∧ c.handler = some n
  mem_updaters_service : ∀ n f side, .service f side ∈ updaters n ↔ services f side = n
  handler_unique : ∀ b, ∀ c ∈ children b, ∀ c' ∈ children b, c.name = c'.name →
    c.handler = c'.handler

/-! ## The code -/

/-- The service a slot belongs to. -/
def Slot.owner {B F : Type} : Slot B F → Node B F
  | .child b _ => .balancer b
  | .service f _ => .failover f

/-- What a service keeps. -/
def Node.State {B F : Type} : Node B F → Type
  | .balancer _ => StatusMap
  | .failover _ => Failover

open StatusMap

/-- A service is up: some child is in its status map, or one of its two services
    is up. -/
def Node.up {B F : Type} : (n : Node B F) → n.State → Bool
  | .balancer _, status => StatusMap.up status
  | .failover _, f => Failover.up f

def Slot.records {B F : Type} : (e : Slot B F) → e.owner.State → Bool
  | .child _ name, status => holds status name
  | .service _ side, f => Failover.status f side

/-- `SetStatus`, `SetHandlerStatus` and `SetFallbackHandlerStatus`, with the value
    the updaters are called with. -/
def Slot.set {B F : Type} : (e : Slot B F) → Bool → e.owner.State → e.owner.State × Option Bool
  | .child _ name, up, status => setStatus status name up
  | .service _ side, up, f => Failover.setStatus side f up

variable {B F : Type}

/-- The states of all services. -/
abbrev Status (B F : Type) := (n : Node B F) → n.State

/-- The children that a balancer records as up. -/
def statusOf (s : Status B F) (b : B) : StatusMap :=
  s (.balancer b)

/-- What a failover records. -/
def failoverOf (s : Status B F) (f : F) : Failover :=
  s (.failover f)

/-- A service is up. -/
def isUp (s : Status B F) (n : Node B F) : Bool :=
  n.up (s n)

/-- All children have been added, and the handlers of the failovers set. -/
def Graph.start (g : Graph B F) : Status B F
  | .balancer b => (g.children b).foldl (fun status c => status.add c.name c.weight) (∅ : StatusMap)
  | .failover _ => Failover.new

/-- A child of this name is a server. -/
def Graph.HasServer (g : Graph B F) (b : B) (name : String) : Prop :=
  ∃ c ∈ g.children b, c.name = name ∧ c.handler = none

/-- The slots of children that `Add` ignored. -/
def Graph.ignored (g : Graph B F) : Set (Slot B F) :=
  { e | ∃ b name, e = .child b name ∧ ∀ c ∈ g.children b, c.name = name → ¬ c.Added }

section
variable {g : Graph B F} {b : B} {name : String}

/-- The children in the map of a new balancer are those that were not ignored. -/
theorem mem_foldl_add {kids : List (Child B F)} {status : StatusMap} :
    name ∈ kids.foldl (fun status c => status.add c.name c.weight) status ↔
      (∃ c ∈ kids, c.name = name ∧ c.Added) ∨ name ∈ status := by
  induction kids generalizing status with
  | nil => simp
  | cons c kids ih =>
    rw [List.foldl_cons, ih, mem_add]
    simp only [List.exists_mem_cons_iff, Child.Added, eq_comm]
    rw [or_assoc, or_left_comm]

theorem records_start (h : .child b name ∉ g.ignored) :
    Slot.records (.child b name) (g.start (.balancer b)) = true := by
  simp only [Graph.ignored, Set.mem_ofPred_eq, not_exists, not_and, not_forall, not_not] at h
  obtain ⟨c, hc, hname, hadded⟩ := h b name rfl
  exact holds_eq_true.mpr (mem_foldl_add.mpr (.inl ⟨c, hc, hname, hadded⟩))

theorem up_start (hadded : ∀ b, ∃ c ∈ g.children b, c.Added) (n : Node B F) :
    n.up (g.start n) = true := by
  cases n with
  | balancer b =>
    obtain ⟨c, hc, hadd⟩ := hadded b
    exact StatusMap.up_eq_true.mpr ⟨c.name, mem_foldl_add.mpr (.inl ⟨c, hc, rfl, hadd⟩)⟩
  | failover f => rfl

end

/-! ## The network of slots -/

theorem Failover.status_setStatus (side side' : Side) (f : Failover) (up : Bool) :
    (Failover.setStatus side f up).1.status side' =
      if side' = side then up else f.status side' := by
  unfold Failover.setStatus
  split
  · next h =>
    split
    · next heq => rw [heq, h]
    · rfl
  · cases side <;> cases side' <;> rfl

variable [DecidableEq B] [DecidableEq F]

/-- The setters of a graph as a network of slots. -/
def Graph.network (g : Graph B F) : Network (Node B F) (Slot B F) Node.State where
  owner := Slot.owner
  watchers := g.updaters
  up := Node.up
  records := Slot.records
  set := Slot.set
  records_set := by
    intro e v s
    cases e with
    | child b name => exact (StatusMap.holds_record _ _ _ _).trans (if_pos rfl)
    | service f side => exact (Failover.status_setStatus side side _ v).trans (if_pos rfl)
  records_set_of_ne := by
    intro e e' v s hne
    by_cases howner : e'.owner = e.owner
    · cases e with
      | child b name =>
        cases e' with
        | child b' name' =>
          cases howner
          have hwritten :=
            Function.update_self (Node.balancer b) (Slot.set (.child b name) v (s _)).1 s
          exact (congrArg (Slot.records (.child b name')) hwritten).trans
            ((StatusMap.holds_record _ _ _ _).trans (if_neg fun h => hne (by rw [h])))
        | service f' side' => cases howner
      | service f side =>
        cases e' with
        | child b' name' => cases howner
        | service f' side' =>
          cases howner
          have hwritten :=
            Function.update_self (Node.failover f) (Slot.set (.service f side) v (s _)).1 s
          exact (congrArg (Slot.records (.service f side')) hwritten).trans
            ((Failover.status_setStatus side side' _ v).trans (if_neg fun h => hne (by rw [h])))
    · rw [Function.update_of_ne howner]
  up_of_silent := by
    intro e v s hsilent
    cases e with
    | child b name =>
      simp only [Slot.set, StatusMap.setStatus, ite_eq_left_iff, reduceCtorEq, imp_false,
        not_not] at hsilent
      exact hsilent.symm
    | service f side =>
      simp only [Slot.set, Failover.setStatus] at hsilent ⊢
      split at hsilent
      · next h => rw [if_pos h]
      · cases hsilent
  up_of_told := by
    intro e v s u htold
    cases e with
    | child b name =>
      simp only [Slot.set, StatusMap.setStatus] at htold
      split at htold
      · cases htold
      · cases htold
        rfl
    | service f side =>
      simp only [Slot.set, Failover.setStatus] at htold ⊢
      split at htold
      · cases htold
      · next h =>
        rw [if_neg h]
        cases htold
        rfl
  watchers_unique := by
    intro e n n' hn hn'
    cases e with
    | child b name =>
      obtain ⟨c, hc, hname, hhandler⟩ := (g.mem_updaters_child n b name).mp hn
      obtain ⟨c', hc', hname', hhandler'⟩ := (g.mem_updaters_child n' b name).mp hn'
      have hsame := g.handler_unique b c hc c' hc' (hname.trans hname'.symm)
      rw [hhandler, hhandler'] at hsame
      exact Option.some.inj hsame
    | service f side =>
      rw [← (g.mem_updaters_service n f side).mp hn, ← (g.mem_updaters_service n' f side).mp hn']

/-! ## Runs -/

/-- `SetStatus` of a balancer, with a bound on the depth of the calls it leads to. -/
def Graph.setStatus (g : Graph B F) (fuel : Nat) (b : B) (childName : String) (up : Bool) :
    Status B F → Option (Status B F) :=
  g.network.setStatus fuel (.child b childName) up

/-- Calls of `SetStatus` for servers, one after the other. -/
def Graph.calls (g : Graph B F) : System (Status B F) (B × String × Bool) where
  init := fun s => s = g.start
  step := fun s (b, name, up) s' =>
    g.HasServer b name ∧ ∃ fuel, g.setStatus fuel b name up s = some s'

section
variable {g : Graph B F} {s s' : Status B F} {b : B} {name : String} {up : Bool}

/-- Slots of servers watch nobody. -/
theorem exact_of_server (h : g.HasServer b name) : g.network.Exact s (.child b name) := by
  intro n hn
  obtain ⟨c, hc, hname, hserver⟩ := h
  obtain ⟨c', hc', hname', hhandler⟩ := (g.mem_updaters_child n b name).mp hn
  rw [← g.handler_unique b c hc c' hc' (hname.trans hname'.symm), hserver] at hhandler
  cases hhandler

/-- **Propagation is exact** but for the slots of ignored children. -/
theorem exact_of_reachable (hadded : ∀ b, ∃ c ∈ g.children b, c.Added)
    (hacyclic : ∀ n, ¬ OnCycle g.network.parents n) (hs : g.calls.Reachable s) :
    ∀ e ∉ g.ignored, g.network.Exact s e := by
  refine System.invariant (fun s => ∀ e ∉ g.ignored, g.network.Exact s e) ?_ ?_ hs
  · -- at the start everything is up and recorded as up
    intro s hinit e he n hn
    rw [show s = g.start from hinit]
    refine .trans ?_ (up_start hadded n).symm
    cases e with
    | child b name => exact records_start he
    | service f side => cases side <;> rfl
  · intro s ⟨b, name, up⟩ s' hexact ⟨hserver, fuel, hset⟩ e he
    by_cases hslot : e = .child b name
    · -- the slot that is set is one of a server
      rw [hslot]
      exact exact_of_server hserver
    · exact (Network.setStatus_done hacyclic hset).exact g.ignored hexact e he hslot

theorem setStatus_ends [Finite B] [Finite F] (hacyclic : ∀ n, ¬ OnCycle g.network.parents n)
    (b : B) (name : String) (up : Bool) (s : Status B F) :
    ∃ fuel s', g.setStatus fuel b name up s = some s' := by
  have : Finite (Node B F) := by
    refine .of_injective (β := B ⊕ F)
      (fun | .balancer b => .inl b | .failover f => .inr f) ?_
    intro n n' h
    cases n <;> cases n' <;> simp_all
  have hground : Grounded g.network.parents (.balancer b) :=
    (grounded_iff (Set.toFinite _)).mpr fun n _ => hacyclic n
  obtain ⟨fuel, hfuel⟩ := Network.setStatus_ends (e := Slot.child b name) hground
  exact ⟨fuel, hfuel up s⟩

/-- **Health status is propagated**: after every run of calls for servers, a
    balancer records a child that it added as up, and a failover each of its two
    services, exactly when the child is up; and the next call comes to its end. -/
theorem recorded_iff_up [Finite B] [Finite F] (hadded : ∀ b, ∃ c ∈ g.children b, c.Added)
    (hacyclic : ∀ n, ¬ OnCycle g.network.parents n) (hs : g.calls.Reachable s) :
    (∀ b, ∀ c ∈ g.children b, c.Added → ∀ n, c.handler = some n →
      (c.name ∈ statusOf s b ↔ isUp s n = true)) ∧
    (∀ f side, (failoverOf s f).status side = isUp s (g.services f side)) ∧
    ∀ b name up, g.HasServer b name → ∃ s', g.calls.step s (b, name, up) s' := by
  have hexact := exact_of_reachable hadded hacyclic hs
  refine ⟨?_, ?_, ?_⟩
  · intro b c hc hadd n hn
    have hnot : .child b c.name ∉ g.ignored := by
      intro ⟨b', name', heq, hall⟩
      cases heq
      exact hall c hc rfl hadd
    have hslot : (statusOf s b).holds c.name = isUp s n :=
      hexact _ hnot n ((g.mem_updaters_child n b c.name).mpr ⟨c, hc, rfl, hn⟩)
    rw [← hslot, holds_eq_true]
  · intro f side
    have hnot : .service f side ∉ g.ignored := by
      intro ⟨b', name', heq, _⟩
      cases heq
    exact hexact _ hnot _ ((g.mem_updaters_service _ f side).mpr rfl)
  · intro b name up hserver
    obtain ⟨fuel, s', hset⟩ := setStatus_ends hacyclic b name up s
    exact ⟨s', hserver, fuel, hset⟩

end

/-- The balancers of the example below. -/
inductive Site where
  | root
  | main
  | spare
  deriving DecidableEq, Repr

instance : Finite Site := by
  refine Finite.of_surjective (![.root, .main, .spare] : Fin 3 → Site) ?_
  intro site
  cases site with
  | root => exact ⟨0, rfl⟩
  | main => exact ⟨1, rfl⟩
  | spare => exact ⟨2, rfl⟩

/-- A balancer over `main` and over a failover from `main` to `spare`. -/
def twoPaths (weight : Option Int) : Graph Site Unit where
  children := fun
    | .root => [⟨"a", none, some (.balancer .main)⟩, ⟨"f", weight, some (.failover ())⟩]
    | .main => [⟨"http://main", none, none⟩]
    | .spare => [⟨"http://spare", none, none⟩]
  services := fun
    | (), .handler => .balancer .main
    | (), .fallback => .balancer .spare
  updaters := fun
    | .balancer .root => []
    | .balancer .main => [.child .root "a", .service () .handler]
    | .balancer .spare => [.service () .fallback]
    | .failover () => [.child .root "f"]
  mem_updaters_child := by
    intro n b name
    rcases n with (_ | _ | _) | _ <;> cases b <;> simp [eq_comm]
  mem_updaters_service := by
    intro n f side
    rcases n with (_ | _ | _) | _ <;> cases side <;> simp
  handler_unique := by
    intro b
    cases b <;> simp

/-- How far a service is below the root. -/
def Site.rank : Node Site Unit → Nat
  | .balancer .root => 0
  | .failover () => 1
  | .balancer _ => 2

theorem twoPaths_acyclic (wt : Option Int) (n : Node Site Unit) :
    ¬ OnCycle (twoPaths wt).network.parents n := by
  have hrank : ∀ n, ∀ c ∈ (twoPaths wt).network.parents n, Site.rank c < Site.rank n := by
    rintro ((_ | _ | _) | _) <;>
      simp [Network.parents, Graph.network, twoPaths, Slot.owner, Site.rank]
  exact (grounded_of_rank Site.rank hrank n).not_onCycle

theorem twoPaths_added (wt : Option Int) (b : Site) : ∃ c ∈ (twoPaths wt).children b, c.Added := by
  cases b with
  | root | main | spare => exact ⟨_, .head _, by simp [Child.Added]⟩

/-- With both children added, the root records `main` as down and the failover
    as up once `main` has lost its server. -/
theorem twoPaths_recorded :
    ∃ s, (twoPaths none).calls.step (twoPaths none).start (.main, "http://main", false) s ∧
      isUp s (.balancer .main) = false ∧ isUp s (.failover ()) = true ∧
      "a" ∉ statusOf s .root ∧ "f" ∈ statusOf s .root := by
  obtain ⟨s, hs, hmain, hfailover⟩ : ∃ s, (twoPaths none).calls.step (twoPaths none).start
      (.main, "http://main", false) s ∧ isUp s (.balancer .main) = false ∧
        isUp s (.failover ()) = true :=
    ⟨_, ⟨⟨_, .head _, rfl, rfl⟩, 3, rfl⟩, by decide, by decide⟩
  have hrec := (recorded_iff_up (twoPaths_added none) (twoPaths_acyclic none)
    (.step _ (.init rfl) hs)).1 .root
  refine ⟨s, hs, hmain, hfailover, ?_, ?_⟩
  · rw [hrec ⟨"a", none, some (.balancer .main)⟩ (by decide) (by decide) _ rfl, hmain]
    decide
  · exact (hrec ⟨"f", none, some (.failover ())⟩ (by decide) (by decide) _ rfl).mpr hfailover

/-- A child of weight 0 is up and is not recorded as up. -/
theorem twoPaths_unrecorded :
    (∀ b, ∃ c ∈ (twoPaths (some 0)).children b, c.Added) ∧
    (∀ n, ¬ OnCycle (twoPaths (some 0)).network.parents n) ∧
    ∃ s, (twoPaths (some 0)).calls.step (twoPaths (some 0)).start (.main, "http://main", true) s ∧
      Slot.child .root "f" ∈ (twoPaths (some 0)).updaters (.failover ()) ∧
      isUp s (.failover ()) = true ∧ "f" ∉ statusOf s .root := by
  refine ⟨twoPaths_added _, twoPaths_acyclic _, _, ⟨⟨_, .head _, rfl, rfl⟩, 1, rfl⟩, ?_⟩
  decide

end Ingress
