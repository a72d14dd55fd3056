import Ingress.Framework.KeyedUnion
import Mathlib.Data.List.AList

/-! # Merging Configurations

    `Merge` of `pkg/provider`: the resource maps of several configurations become one.  A key
    that is there already is merged with the method `Merge` of the resource, or has to be the
    same; the keys that could not be merged are removed at the end.

    A resource without a method `Merge`, or a nil pointer, is a value of `P`.  Of a service, `O`
    is all but its load-balancer, and `L` is all of the load-balancer but its servers: these are
    compared and nothing else.  A map is a list of its entries, in the order of its walk.

    * `merge`: the code.
    * `merge_eq`: the value of a key comes from its definitions.
    * `mergeAll_eq`: the value of a list of definitions.
    * `order_free_iff`: when the order of the configurations does not show. -/

open Option Function List

namespace Ingress.Provider.Merge

open KeyedUnion

/-! ## Resources -/

structure Server where
  url : String
  weight : Option Int
  preservePath : Bool
  fenced : Bool
  scheme : String
  port : String
  deriving DecidableEq, Repr

structure TCPServer where
  address : String
  port : String
  tls : Bool
  deriving DecidableEq, Repr

structure UDPServer where
  address : String
  port : String
  deriving DecidableEq, Repr

/-- The parts of a configuration. -/
inductive Section where
  | http
  | tcp
  | udp
  | tls
  deriving DecidableEq, Repr

/-- The servers of the services of a part. -/
def Section.Server : Section → Type
  | .http => Merge.Server
  | .tcp => TCPServer
  | .udp => UDPServer
  | .tls => Empty

instance : (sec : Section) → DecidableEq sec.Server
  | .http => inferInstanceAs (DecidableEq Merge.Server)
  | .tcp => inferInstanceAs (DecidableEq TCPServer)
  | .udp => inferInstanceAs (DecidableEq UDPServer)
  | .tls => inferInstanceAs (DecidableEq Empty)

/-- What tells the servers of a load-balancer apart. -/
def Section.address : (sec : Section) → sec.Server → String
  | .http => Merge.Server.url
  | .tcp => TCPServer.address
  | .udp => UDPServer.address
  | .tls => Empty.elim

/-- A load-balancer of servers. -/
structure LoadBalancer (L S : Type) where
  settings : L
  servers : List S
  deriving DecidableEq

structure Service (O L S : Type) where
  other : O
  loadBalancer : Option (LoadBalancer L S)
  deriving DecidableEq

/-- A value of a resource map. -/
inductive Resource (P O L S : Type) where
  | plain (value : P)
  | service (s : Service O L S)
  deriving DecidableEq

/-! ## Servers -/

variable {P O L S : Type} {address : S → String} {r r' : Resource P O L S}

def Resource.servers : Resource P O L S → List S
  | .service ⟨_, some l⟩ => l.servers
  | _ => []

/-- The resource with other servers, when it has a load-balancer. -/
def Resource.withServers (servers : List S) : Resource P O L S → Resource P O L S
  | .service ⟨other, some l⟩ => .service ⟨other, some { l with servers }⟩
  | r => r

/-- What `tryMerge` compares. -/
def Resource.compared : Resource P O L S → L ⊕ Resource P O L S
  | .service ⟨_, some l⟩ => .inl l.settings
  | r => .inr r

/-- The resources agree on everything but the servers. -/
def Agree (r r' : Resource P O L S) : Prop :=
  r.withServers [] = r'.withServers []

@[simp] theorem compared_withServers (servers : List S) (r : Resource P O L S) :
    (r.withServers servers).compared = r.compared := by
  rcases r with p | ⟨o, _ | l⟩ <;> rfl

@[simp] theorem withServers_withServers (servers servers' : List S) (r : Resource P O L S) :
    (r.withServers servers).withServers servers' = r.withServers servers' := by
  rcases r with p | ⟨o, _ | l⟩ <;> rfl

theorem withServers_servers (r : Resource P O L S) : r.withServers r.servers = r := by
  rcases r with p | ⟨o, _ | l⟩ <;> rfl

/-- Resources that agree can be merged. -/
theorem Agree.compared (h : Agree r r') : r.compared = r'.compared := by
  rw [← compared_withServers [] r, ← compared_withServers [] r', show r.withServers [] = _ from h]

theorem servers_eq_nil (h : r'.compared = .inr r) : r'.servers = [] := by
  rcases r' with p | ⟨o, _ | l⟩
  · rfl
  · rfl
  · cases h

variable {rs : List (Resource P O L S)}

open Resource

/-- Resources that can be merged all have load-balancers, or none has. -/
theorem servers_withServers (h : ∀ r' ∈ rs, r'.compared = r.compared) :
    (r.withServers (unionAll address r.servers (rs.map servers))).servers =
      unionAll address r.servers (rs.map servers) := by
  have hnone : r.compared = .inr r →
      unionAll address [] (rs.map servers) = [] := by
    intro hr
    refine unionAll_nil fun ys hys => ?_
    obtain ⟨r', hr', rfl⟩ := mem_map.mp hys
    exact servers_eq_nil ((h r' hr').trans hr)
  rcases r with p | ⟨o, _ | l⟩
  · exact (hnone rfl).symm
  · exact (hnone rfl).symm
  · rfl

/-! ## The code -/

variable [DecidableEq P] [DecidableEq O] [DecidableEq L] [DecidableEq S]


/-- `mergeable`, which compares the load-balancers without their servers. -/
def LoadBalancer.mergeable (l loadBalancer : LoadBalancer L S) : Bool :=
  decide (({ l with servers := [] } : LoadBalancer L S) = { loadBalancer with servers := [] })

/-- `Merge` of a load-balancer: what becomes of it, and whether the merge succeeds. -/
def LoadBalancer.merge (address : S → String) (l other : LoadBalancer L S) : LoadBalancer L S × Bool :=
  if !l.mergeable other then (l, false)
  else ({ l with servers := union address l.servers other.servers }, true)

def Service.merge (address : S → String) (s other : Service O L S) : Service O L S × Bool :=
  match s.loadBalancer, other.loadBalancer with
  | some l, some l' =>
    ({ s with loadBalancer := some (l.merge address l').1 }, (l.merge address l').2)
  | _, _ => (s, s = other)

def tryMerge (address : S → String) (dst src : Resource P O L S) : Resource P O L S × Bool :=
  match dst, src with
  | .service s, .service s' => (.service (s.merge address s').1, (s.merge address s').2)
  | dst, src => (dst, dst = src)

/-- `ResourceStrategy`. -/
inductive Strategy where
  | merge
  | skipDuplicates
  deriving DecidableEq, Repr

/-- The fields of the parts that are maps. -/
inductive Field where
  | routers
  | services
  | middlewares
  | models
  | serversTransports
  | options
  | stores
  deriving DecidableEq, Repr

/-- The maps of a part, which may be nil. -/
abbrev Resources (P O L S : Type) := Field → Option (AList fun _ : String => Resource P O L S)

/-- The merged maps of a part, and the keys to be deleted. -/
structure Merged (P O L S : Type) where
  resources : Field → String → Option (Resource P O L S)
  toDelete : Field → String → Bool

/-- A turn of the loop of `mergeResourceMap`. -/
def mergeResource (address : S → String) (strategy : Strategy) (field : Field) (m : Merged P O L S)
    (entry : Sigma fun _ : String => Resource P O L S) : Merged P O L S :=
  let set := fun value =>
    update m.resources field (update (m.resources field) entry.1 (some value))
  match m.resources field entry.1 with
  | none => { m with resources := set entry.2 }
  | some dstValue =>
    match strategy with
    | .merge =>
      let (value, merged) := tryMerge address dstValue entry.2
      { resources := set value
        toDelete := if merged then m.toDelete
          else update m.toDelete field (update (m.toDelete field) entry.1 true) }
    | .skipDuplicates => m

def mergeResourceMap (address : S → String) (strategy : Strategy) (src : Resources P O L S)
    (m : Merged P O L S) (field : Field) : Merged P O L S :=
  match src field with
  | none => m
  | some entries => entries.entries.foldl (mergeResource address strategy field) m

def mergeResourceMaps (address : S → String) (strategy : Strategy) (m : Merged P O L S)
    (src : Resources P O L S) : Merged P O L S :=
  [Field.routers, .services, .middlewares, .models, .serversTransports, .options, .stores].foldl
    (mergeResourceMap address strategy src) m

def deleteConflicts (m : Merged P O L S) (field : Field) (key : String) : Option (Resource P O L S) :=
  if m.toDelete field key then none else m.resources field key

structure NamedConfiguration (P O L : Type) where
  name : String
  configuration : (sec : Section) → Option (Resources P O L sec.Server)

/-- A turn of the loop of `Merge`, for one of the parts. -/
def mergeSection (strategy : Strategy) (sec : Section) (merged : Merged P O L sec.Server)
    (c : NamedConfiguration P O L) : Merged P O L sec.Server :=
  match c.configuration sec with
  | none => merged
  | some src => mergeResourceMaps sec.address strategy merged src

def merge (configurations : List (NamedConfiguration P O L)) (strategy : Strategy) (sec : Section) :
    Field → String → Option (Resource P O L sec.Server) :=
  deleteConflicts (configurations.foldl (mergeSection strategy sec) ⟨fun _ _ => none, fun _ _ => false⟩)

/-! ## Definitions of a key -/

/-- What a configuration has for a key. -/
def NamedConfiguration.definition (c : NamedConfiguration P O L) (sec : Section) (field : Field)
    (key : String) : Option (Resource P O L sec.Server) :=
  (c.configuration sec).bind fun src => (src field).bind fun entries => entries.lookup key

/-- All definitions of a key. -/
def definitions (configurations : List (NamedConfiguration P O L)) (sec : Section) (field : Field)
    (key : String) : List (Resource P O L sec.Server) :=
  configurations.filterMap (·.definition sec field key)

/-- What is known of a key. -/
def Merged.get (m : Merged P O L S) (field : Field) (key : String) : Option (Resource P O L S) × Bool :=
  (m.resources field key, m.toDelete field key)

/-- One more definition. -/
def define (address : S → String) (st : Option (Resource P O L S) × Bool) (value : Resource P O L S) :
    Option (Resource P O L S) × Bool :=
  match st.1 with
  | none => (some value, st.2)
  | some dst => (some (tryMerge address dst value).1, st.2 || !(tryMerge address dst value).2)

/-- What a configuration defines is added to what is known. -/
def defineOption (address : S → String) (st : Option (Resource P O L S) × Bool)
    (value : Option (Resource P O L S)) : Option (Resource P O L S) × Bool :=
  value.elim st (define address st)

/-- The value of a list of definitions. -/
def mergeAll (address : S → String) (values : List (Resource P O L S)) : Option (Resource P O L S) :=
  let st := values.foldl (define address) (none, false)
  if st.2 then none else st.1

variable {m : Merged P O L S} {field : Field} {key : String}

/-- An entry is a definition of its key, and of no other. -/
theorem get_mergeResource (field' : Field) (key' : String)
    (entry : Sigma fun _ : String => Resource P O L S) :
    (mergeResource address .merge field m entry).get field' key' =
      if field' = field ∧ key' = entry.1 then define address (m.get field' key') entry.2
      else m.get field' key' := by
  unfold mergeResource Merged.get define
  by_cases hfield : field' = field
  · subst hfield
    by_cases hkey : key' = entry.1
    · subst hkey
      cases hvalue : m.resources field' entry.1 with
      | none => simp
      | some dst =>
        dsimp only
        cases (tryMerge address dst entry.2).2 <;> simp
    · rw [if_neg (fun h => hkey h.2)]
      cases m.resources field' entry.1 with
      | none => simp [update_of_ne hkey]
      | some dst =>
        dsimp only
        cases (tryMerge address dst entry.2).2 <;> simp [update_of_ne hkey]
  · rw [if_neg (fun h => hfield h.1)]
    cases m.resources field entry.1 with
    | none => simp [update_of_ne hfield]
    | some dst =>
      dsimp only
      cases (tryMerge address dst entry.2).2 <;> simp [update_of_ne hfield]

/-- A map has at most one entry of a key. -/
theorem get_foldl_mergeResource (field' : Field) (key' : String)
    {entries : List (Sigma fun _ : String => Resource P O L S)} (hnd : entries.NodupKeys) :
    (entries.foldl (mergeResource address .merge field) m).get field' key' =
      defineOption address (m.get field' key') (if field' = field then entries.dlookup key' else none) := by
  induction entries generalizing m with
  | nil => split <;> rfl
  | cons entry entries ih =>
    obtain ⟨hnew, hnd⟩ := nodupKeys_cons.mp hnd
    rw [foldl_cons, ih hnd, get_mergeResource]
    by_cases hfield : field' = field
    · by_cases hkey : key' = entry.1
      · subst hkey
        have hnone : entries.dlookup entry.1 = none := dlookup_eq_none.mpr hnew
        obtain ⟨name, value⟩ := entry
        simp [hfield, hnone, defineOption]
      · have hnext : (entry :: entries).dlookup key' = entries.dlookup key' :=
          dlookup_cons_ne _ _ hkey
        rw [if_pos hfield, if_pos hfield, hnext, if_neg (fun h => hkey h.2)]
    · rw [if_neg hfield, if_neg hfield, if_neg (fun h => hfield h.1)]

theorem get_mergeResourceMap (src : Resources P O L S) (field' : Field) (key' : String) :
    (mergeResourceMap address .merge src m field).get field' key' =
      if field' = field then
        defineOption address (m.get field' key') ((src field').bind fun entries => entries.lookup key')
      else m.get field' key' := by
  unfold mergeResourceMap
  by_cases hfield : field' = field
  · rw [if_pos hfield, hfield]
    cases src field with
    | none => rfl
    | some entries =>
      rw [get_foldl_mergeResource field key' entries.nodupKeys, if_pos rfl, bind_some]
      rfl
  · rw [if_neg hfield]
    cases src field with
    | none => rfl
    | some entries =>
      rw [get_foldl_mergeResource field' key' entries.nodupKeys, if_neg hfield]
      rfl

theorem get_mergeResourceMaps (src : Resources P O L S) (key' : String) :
    (mergeResourceMaps address .merge m src).get field key' =
      defineOption address (m.get field key') ((src field).bind fun entries => entries.lookup key') := by
  unfold mergeResourceMaps
  cases field <;> simp [get_mergeResourceMap]

/-- **A key has the value of its definitions.** -/
theorem merge_eq (confs : List (NamedConfiguration P O L)) (sec : Section) (field : Field)
    (key : String) : merge confs .merge sec field key =
      mergeAll sec.address (definitions confs sec field key) := by
  have hget : ∀ m,
      (confs.foldl (mergeSection .merge sec) m).get field key = (definitions confs sec field key).foldl (define sec.address) (m.get field key) := by
    induction confs with
    | nil => exact fun _ => rfl
    | cons c confs ih =>
      intro m
      rw [foldl_cons, ih]
      have hhead : (mergeSection .merge sec m c).get field key =
          defineOption sec.address (m.get field key) (c.definition sec field key) := by
        unfold NamedConfiguration.definition mergeSection
        cases c.configuration sec with
        | none => rfl
        | some src => exact get_mergeResourceMaps src key
      rw [hhead]
      unfold definitions
      rw [filterMap_cons]
      cases c.definition sec field key <;> rfl
  have hall := hget ⟨fun _ _ => none, fun _ _ => false⟩
  unfold mergeAll
  rw [show ((none : Option (Resource P O L sec.Server)), false) =
    (⟨fun _ _ => none, fun _ _ => false⟩ : Merged P O L sec.Server).get field key from rfl, ← hall]
  rfl

/-! ## Merging definitions -/

theorem tryMerge_eq (addr : S → String) (r r' : Resource P O L S) : tryMerge addr r r' =
    if r.compared = r'.compared then (r.withServers (union addr r.servers r'.servers), true)
    else (r, false) := by
  rcases r with p | ⟨o, _ | ⟨settings, servers⟩⟩ <;> rcases r' with p' | ⟨o', _ | ⟨settings', servers'⟩⟩ <;>
    simp [tryMerge, Service.merge, LoadBalancer.merge, LoadBalancer.mergeable, Resource.compared,
      Resource.withServers, Resource.servers]
  · by_cases h : p = p' <;> simp [h]
  · by_cases h : o = o' <;> simp [h]
  · by_cases h : settings = settings' <;> simp [h]

/-- A definition that cannot be merged is not forgotten. -/
theorem foldl_define_snd (rs : List (Resource P O L S)) (marked : Bool) :
    (rs.foldl (define address) (some r, marked)).2 =
      (marked || rs.any fun r' => r'.compared ≠ r.compared) := by
  induction rs generalizing r marked with
  | nil => simp
  | cons r' rs ih =>
    rw [foldl_cons]
    show (rs.foldl (define address) (some (tryMerge address r r').1, marked || !(tryMerge address r r').2)).2 = _
    rw [ih, tryMerge_eq]
    by_cases h : r.compared = r'.compared
    · simp [h]
    · simp [h, Ne.symm h]

theorem foldl_define_fst (h : ∀ r' ∈ rs, r'.compared = r.compared)
    (marked : Bool) : (rs.foldl (define address) (some r, marked)).1 =
      some (r.withServers (unionAll address r.servers (rs.map servers))) := by
  induction rs generalizing r marked with
  | nil =>
    show some r = some (r.withServers r.servers)
    rw [withServers_servers]
  | cons r' rs ih =>
    have hhead := h r' (.head _)
    have hservers : (r.withServers (union address r.servers r'.servers)).servers =
        union address r.servers r'.servers :=
      @servers_withServers P O L S address r [r'] (by simpa using hhead)
    rw [foldl_cons]
    show (rs.foldl (define address) (some (tryMerge address r r').1, _)).1 = _
    rw [tryMerge_eq, if_pos hhead.symm, ih]
    · rw [withServers_withServers, hservers]
      rfl
    · intro r'' hr''
      rw [compared_withServers]
      exact h r'' (.tail _ hr'')

/-- **The value of a list of definitions.** -/
theorem mergeAll_eq (r : Resource P O L S) (rs : List (Resource P O L S)) :
    mergeAll address (r :: rs) = if ∀ r' ∈ rs, r'.compared = r.compared then
      some (r.withServers (unionAll address r.servers (rs.map servers))) else none := by
  unfold mergeAll
  rw [foldl_cons]
  show (if (rs.foldl (define address) (some r, false)).2 then none
    else (rs.foldl (define address) (some r, false)).1) = _
  rw [foldl_define_snd]
  by_cases h : ∀ r' ∈ rs, r'.compared = r.compared
  · rw [if_pos h, if_neg (by simpa using h), foldl_define_fst h]
  · rw [if_neg h, if_pos (by simpa using h)]

/-! ## Other orders -/

/-- The resources agree, and have the same servers, in any order. -/
structure Similar (r r' : Resource P O L S) : Prop where
  agree : Agree r r'
  servers : r.servers.Perm r'.servers

/-- Definitions that are merged agree, and those that share an address have the same servers
    for it. -/
def Consistent (address : S → String) (rs : List (Resource P O L S)) : Prop :=
  (∀ r ∈ rs, ∀ r' ∈ rs, r.compared = r'.compared) →
    (∀ r ∈ rs, ∀ r' ∈ rs, Agree r r') ∧ Coherent address (rs.map servers)

/-- All definitions agree. -/
def AllAgree (rs : List (Resource P O L S)) : Prop :=
  rs ≠ [] ∧ ∀ r ∈ rs, ∀ r' ∈ rs, Agree r r'

theorem mergeAll_isSome (addr : S → String) (rs : List (Resource P O L S)) : (mergeAll addr rs).isSome = true ↔
    rs ≠ [] ∧ ∀ r ∈ rs, ∀ r' ∈ rs, r.compared = r'.compared := by
  match rs with
  | [] => simp [mergeAll]
  | r :: rs =>
    rw [mergeAll_eq]
    have hiff : (∀ r' ∈ rs, r'.compared = r.compared) ↔
        ∀ r₁ ∈ r :: rs, ∀ r₂ ∈ r :: rs, r₁.compared = r₂.compared := by
      constructor
      · intro h
        have hall : ∀ r' ∈ r :: rs, r'.compared = r.compared := by
          intro r' hr'
          rcases mem_cons.mp hr' with rfl | hr'
          · rfl
          · exact h r' hr'
        intro r₁ hr₁ r₂ hr₂
        rw [hall r₁ hr₁, hall r₂ hr₂]
      · intro h r' hr'
        exact h r' (.tail _ hr') r (.head _)
    by_cases h : ∀ r' ∈ rs, r'.compared = r.compared
    · simp only [if_pos h, isSome_some, true_iff]
      exact ⟨cons_ne_nil _ _, hiff.mp h⟩
    · simp only [if_neg h, isSome_none, Bool.false_eq_true, false_iff]
      exact fun hall => h (hiff.mpr hall.2)

/-- Consistent definitions can be merged in any order. -/
theorem mergeAll_perm {rs rs' : List (Resource P O L S)} (h : Consistent address rs) (hperm : rs'.Perm rs) :
    Option.Rel Similar (mergeAll address rs') (mergeAll address rs) := by
  by_cases hsome : (mergeAll address rs).isSome = true
  · obtain ⟨hne, hcmp⟩ := (mergeAll_isSome address rs).mp hsome
    obtain ⟨hagree, hcoherent⟩ := h hcmp
    have hcmp' : ∀ r ∈ rs', ∀ r' ∈ rs', r.compared = r'.compared :=
      fun r hr r' hr' => hcmp r (hperm.mem_iff.mp hr) r' (hperm.mem_iff.mp hr')
    match rs, rs' with
    | [], _ => exact absurd rfl hne
    | r :: rs, [] => exact absurd hperm.symm.eq_nil (cons_ne_nil _ _)
    | r :: rs, r' :: rs' =>
      have hall : ∀ r₁ ∈ rs, r₁.compared = r.compared :=
        fun r₁ hr₁ => hcmp r₁ (.tail _ hr₁) r (.head _)
      have hall' : ∀ r₁ ∈ rs', r₁.compared = r'.compared :=
        fun r₁ hr₁ => hcmp' r₁ (.tail _ hr₁) r' (.head _)
      rw [mergeAll_eq, mergeAll_eq, if_pos hall, if_pos hall']
      refine .some ⟨?_, ?_⟩
      · show (_ : Resource P O L S) = _
        rw [withServers_withServers, withServers_withServers]
        exact hagree r' (hperm.mem_iff.mp (.head _)) r (.head _)
      · rw [servers_withServers hall, servers_withServers hall']
        exact unionAll_perm hcoherent (hperm.map servers)
  · have hnone : mergeAll address rs = none := not_isSome_iff_eq_none.mp hsome
    have hnone' : mergeAll address rs' = none := by
      rw [← not_isSome_iff_eq_none]
      intro hsome'
      obtain ⟨hne, hcmp⟩ := (mergeAll_isSome address rs').mp hsome'
      refine hsome ((mergeAll_isSome address rs).mpr ⟨?_, ?_⟩)
      · intro hnil
        rw [hnil] at hperm
        exact hne hperm.eq_nil
      · exact fun r hr r' hr' => hcmp r (hperm.mem_iff.mpr hr) r' (hperm.mem_iff.mpr hr')
    rw [hnone, hnone']
    exact .none

omit [DecidableEq P] [DecidableEq O] [DecidableEq L] in
theorem definitions_perm {confs confs' : List (NamedConfiguration P O L)}
    (h : confs'.Perm confs) (sec : Section) (field : Field) (key : String) :
    (definitions confs' sec field key).Perm (definitions confs sec field key) :=
  h.filterMap _

omit [DecidableEq P] [DecidableEq O] [DecidableEq L] in
/-- Every definition is the first one in some order. -/
theorem exists_first {confs : List (NamedConfiguration P O L)} {sec : Section} {field : Field}
    {key : String} {r : Resource P O L sec.Server} (hr : r ∈ definitions confs sec field key) :
    ∃ configurations', configurations'.Perm confs ∧
      ∃ rs, definitions configurations' sec field key = r :: rs := by
  obtain ⟨c, hc, hdef⟩ := mem_filterMap.mp hr
  obtain ⟨pre, after, rfl⟩ := append_of_mem hc
  exact ⟨c :: (pre ++ after), perm_middle.symm, _, filterMap_cons_some hdef⟩

/-- The first definition that has an address decides on its servers. -/
theorem ofKey_servers {u : String} {value : Resource P O L S}
    (hvalue : mergeAll address (r :: rs) = some value) (hu : ofKey address u r.servers ≠ []) :
    ofKey address u value.servers = ofKey address u r.servers := by
  rw [mergeAll_eq] at hvalue
  split at hvalue
  · next hall =>
    rw [← some.inj hvalue, servers_withServers hall]
    exact ofKey_unionAll_of_ne hu _
  · cases hvalue

/-- **The order of the configurations does not show, and the keys that are left are those whose
    definitions agree**, exactly when the definitions that are merged agree on everything but
    the servers, and have the same servers for the addresses they share. -/
theorem order_free_iff (configurations : List (NamedConfiguration P O L)) :
    ((∀ configurations', configurations'.Perm configurations → ∀ sec field key,
        Option.Rel Similar (merge configurations' .merge sec field key)
          (merge configurations .merge sec field key)) ∧
      ∀ sec field key, (merge configurations .merge sec field key).isSome = true ↔
        AllAgree (definitions configurations sec field key)) ↔
    ∀ sec field key, Consistent sec.address (definitions configurations sec field key) := by
  simp only [merge_eq]
  constructor
  · rintro ⟨hord, hagree⟩ sec field key hcmp
    by_cases hnil : definitions configurations sec field key = []
    · rw [hnil]
      exact ⟨fun r hr => absurd hr not_mem_nil, fun xs hxs => absurd hxs not_mem_nil⟩
    have hsome := (mergeAll_isSome sec.address _).mpr ⟨hnil, hcmp⟩
    obtain ⟨value, hvalue⟩ := isSome_iff_exists.mp hsome
    refine ⟨((hagree sec field key).mp hsome).2, ?_⟩
    -- whichever definition comes first, its servers are those of the value
    have hfirst : ∀ r ∈ definitions configurations sec field key, ∀ u,
        ofKey sec.address u r.servers ≠ [] →
        (ofKey sec.address u r.servers).Perm (ofKey sec.address u value.servers) := by
      intro r hr u hu
      obtain ⟨configurations', hperm, rs, hdefs⟩ := exists_first hr
      have hrel := hord configurations' hperm sec field key
      rw [hvalue, hdefs] at hrel
      cases hvalue' : mergeAll sec.address (r :: rs) with
      | none =>
        rw [hvalue'] at hrel
        cases hrel
      | some value' =>
        rw [hvalue'] at hrel
        cases hrel with
        | some hsimilar =>
          rw [← ofKey_servers hvalue' hu]
          exact hsimilar.servers.filter _
    intro xs hxs ys hys u hx hy
    obtain ⟨r, hr, rfl⟩ := mem_map.mp hxs
    obtain ⟨r', hr', rfl⟩ := mem_map.mp hys
    exact (hfirst r hr u hx).trans (hfirst r' hr' u hy).symm
  · intro h
    refine ⟨fun configurations' hperm sec field key =>
      mergeAll_perm (h sec field key) (definitions_perm hperm sec field key), fun sec field key => ?_⟩
    rw [mergeAll_isSome]
    constructor
    · rintro ⟨hne, hcmp⟩
      exact ⟨hne, (h sec field key hcmp).1⟩
    · rintro ⟨hne, hagree⟩
      exact ⟨hne, fun r hr r' hr' => (hagree r hr r' hr').compared⟩

/-- A configuration with a service `app`, which has a server and the middlewares. -/
def withApp (name url : String) (middlewares : List String) : NamedConfiguration Unit (List String) Unit where
  name := name
  configuration
    | .http => some fun
      | .services => some ⟨[⟨"app", .service ⟨middlewares, some ⟨(), [⟨url, none, false, false, "", ""⟩]⟩⟩⟩],
          List.nodupKeys_singleton _⟩
      | _ => none
    | _ => none

/-- Two definitions of a service of which only one has an authentication.  They do not agree, and
    yet the service is there, with the middlewares of the one that came first. -/
theorem middlewares_by_order :
    ((merge [withApp "a" "http://10.0.0.1" [], withApp "b" "http://10.0.0.2" ["auth"]] .merge .http
      .services "app") = some (.service ⟨[], some ⟨(), [⟨"http://10.0.0.1", none, false, false, "", ""⟩,
        ⟨"http://10.0.0.2", none, false, false, "", ""⟩]⟩⟩)) ∧
    ((merge [withApp "b" "http://10.0.0.2" ["auth"], withApp "a" "http://10.0.0.1" []] .merge .http
      .services "app") = some (.service ⟨["auth"], some ⟨(), [⟨"http://10.0.0.2", none, false, false, "", ""⟩,
        ⟨"http://10.0.0.1", none, false, false, "", ""⟩]⟩⟩)) := by
  decide

end Ingress.Provider.Merge
