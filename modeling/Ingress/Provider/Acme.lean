import Ingress.Framework.System
import Ingress.Tls.Domains

/-! # Certificates of ACME

    `pkg/provider/acme`: goroutines ask the CA for certificates of domains.  A goroutine looks at
    the certificates, then locks the domains that no certificate has and nobody is about to get;
    when it has its certificate it unlocks the domains, and adds the certificate.
    `resolveDefaultCertificate` does not look at the certificates.  The certificates and the locked
    domains have a mutex each.

    The certificates of the TLS store do not change during a run, and every request succeeds.
    `watchNewDomains` does not start the goroutine of a default certificate that exists
    (`certExists`); here any goroutine may start.

    * `acme`: the interleavings.
    * `Orderly`: no goroutine locks domains while a certificate is on its way to the others, or
      while it gets in the way of another one.
    * `request_needed`: in the runs whose steps are orderly, no domain is asked for twice. -/

open List LTS Function Text

namespace Ingress.Acme

open Tls

/-! ## The code -/

structure Domain where
  main : String
  sans : List String
  deriving DecidableEq, Repr

def Domain.toStrArray (d : Domain) : List String :=
  (if d.main.isEmpty then [] else [d.main]) ++ d.sans

/-- The domain that a certificate is added for. -/
def Domain.ofNames (names : List String) : Domain :=
  ⟨names.headD "", names.tail⟩

/-- What a goroutine is for: `resolveCertificate` or `resolveDefaultCertificate`, with domains
    that `sanitizeDomains` has returned. -/
structure Task where
  isDefault : Bool
  domains : List String
  nonempty : domains ≠ []

/-- `domainKey` of a default certificate. -/
def Task.key (task : Task) : String :=
  join ',' (sortStrings task.domains)

/-- Where a goroutine stands.  With `looked` it has read the certificates; the others have the
    domains the goroutine has locked. -/
inductive Pc where
  | start
  | looked (allDomains : List String)
  | skipped
  | locked (names : List String)
  | requested (names : List String)
  | obtained (names : List String)
  | removed (names : List String)
  | done (names : List String)
  deriving DecidableEq, Repr

/-- The provider and its goroutines.  `resolvingDomains` is a set. -/
structure State (ι : Type) where
  certificates : List Domain
  resolvingDomains : List String
  pc : ι → Pc

/-- The steps of a goroutine. -/
inductive Act (ι : Type) where
  | look (i : ι)
  | check (i : ι)
  | resolveDefault (i : ι)
  | request (i : ι)
  | obtain (i : ι)
  | remove (i : ι)
  | add (i : ι)

def isDomainAlreadyChecked (domainToCheck : String) (existentDomains : List String) : Bool :=
  existentDomains.any fun certDomains => (split ',' certDomains).any (matchDomain domainToCheck)

def searchUncheckedDomains (domainsToCheck existentDomains : List String) : List String :=
  domainsToCheck.filter fun domainToCheck => !isDomainAlreadyChecked domainToCheck existentDomains

variable {ι : Type} [DecidableEq ι] (given : List String) (task : ι → Task)

/-- The domains of the TLS store and of the certificates. -/
def State.allDomains (s : State ι) : List String :=
  given ++ s.certificates.map fun d => join ',' d.toStrArray

/-- A goroutine moves on. -/
def State.goto (s : State ι) (i : ι) (pc : Pc) : State ι :=
  { s with pc := update s.pc i pc }

/-- The section of `getUncheckedDomains` that locks the domains. -/
def State.check (s : State ι) (i : ι) (allDomains : List String) : State ι :=
  let uncheckedDomains := searchUncheckedDomains (task i).domains (allDomains ++ s.resolvingDomains)
  if uncheckedDomains = [] then s.goto i .skipped
  else { s with resolvingDomains := s.resolvingDomains ++ uncheckedDomains }.goto i (.locked uncheckedDomains)

/-- The section of `resolveDefaultCertificate` that locks the domains. -/
def State.resolveDefault (s : State ι) (i : ι) : State ι :=
  if (task i).key ∈ s.resolvingDomains then s.goto i .skipped
  else
    { s with resolvingDomains := s.resolvingDomains ++ (task i).key :: (task i).domains }.goto i
      (.locked (task i).domains)

/-- What a goroutine unlocks. -/
def Task.unlocks (task : Task) (names : List String) : List String :=
  if task.isDefault then names ++ [task.key] else names

def State.removeResolvingDomains (s : State ι) (resolvingDomains : List String) : State ι :=
  { s with resolvingDomains := s.resolvingDomains.filter (· ∉ resolvingDomains) }

/-- `addCertificateForDomain`, which may replace a certificate of the same domain. -/
def State.addCertificateForDomain (s : State ι) (domain : Domain) : State ι :=
  if domain ∈ s.certificates then s else { s with certificates := s.certificates ++ [domain] }

/-- One step of one goroutine. -/
def State.step (s : State ι) : Act ι → State ι → Prop
  | .look i, s' => (task i).isDefault = false ∧ s.pc i = .start ∧
      s' = s.goto i (.looked (s.allDomains given))
  | .check i, s' => (task i).isDefault = false ∧
      ∃ allDomains, s.pc i = .looked allDomains ∧ s' = s.check task i allDomains
  | .resolveDefault i, s' => (task i).isDefault = true ∧ s.pc i = .start ∧ s' = s.resolveDefault task i
  | .request i, s' => ∃ names, s.pc i = .locked names ∧ s' = s.goto i (.requested names)
  | .obtain i, s' => ∃ names, s.pc i = .requested names ∧ s' = s.goto i (.obtained names)
  | .remove i, s' => ∃ names, s.pc i = .obtained names ∧
      s' = (s.removeResolvingDomains ((task i).unlocks names)).goto i (.removed names)
  | .add i, s' => ∃ names, s.pc i = .removed names ∧
      s' = (s.addCertificateForDomain (.ofNames names)).goto i (.done names)

/-- The interleavings, from certificates that were stored before. -/
def acme (stored : List Domain) : System (State ι) (Act ι) where
  init := fun s => s = ⟨stored, [], fun _ => .start⟩
  step := fun s act s' => s.step given task act s'

/-! ## Goroutines -/

/-- The goroutine has domains locked. -/
def Pc.holds : Pc → Bool
  | .locked _ => true
  | .requested _ => true
  | .obtained _ => true
  | _ => false

/-- The domains that are locked by the goroutine. -/
def Pc.held : Pc → List String
  | .locked names => names
  | .requested names => names
  | .obtained names => names
  | _ => []

/-- The domains that the goroutine has locked and not yet added. -/
def Pc.pending : Pc → List String
  | .removed names => names
  | pc => pc.held

/-- The goroutine gets a certificate. -/
def Pc.entered : Pc → Bool
  | .start => false
  | .looked _ => false
  | .skipped => false
  | _ => true

/-- The goroutine has got its certificate. -/
def Pc.hasObtained : Pc → Bool
  | .obtained _ => true
  | .removed _ => true
  | .done _ => true
  | _ => false

variable {pc : Pc}

theorem Pc.entered_of_hasObtained (h : pc.hasObtained = true) : pc.entered = true := by
  cases pc <;> first | rfl | cases h

variable {d : String}

theorem Pc.held_subset_pending (h : d ∈ pc.held) : d ∈ pc.pending := by
  cases pc <;> first | exact h | cases h

theorem Pc.holds_of_not_entered (h : pc.entered = false) : pc.holds = false := by
  cases pc <;> first | rfl | cases h

theorem Pc.pending_of_not_entered (h : pc.entered = false) : pc.pending = [] := by
  cases pc <;> first | rfl | cases h

/-- Only a goroutine between its last two sections has domains on their way that it does not hold. -/
theorem Pc.held_of_pending (hpc : ∀ names, pc ≠ .removed names)
    (h : d ∈ pc.pending) : d ∈ pc.held := by
  cases pc with
  | removed names => exact absurd rfl (hpc names)
  | _ => exact h

/-- A name without a comma and without a dot at its end. -/
structure Plain (d : String) : Prop where
  ne_empty : d ≠ ""
  comma : ',' ∉ d.toList
  dot : trimDots d = d

/-! ## Orderly runs -/

/-- The domains of the goroutine cover none that another one has locked and not yet asked for. -/
def State.Clear (s : State ι) (i : ι) : Prop :=
  ∀ j ≠ i, ∀ names, s.pc j = .locked names → (task j).isDefault = false → ∀ d ∈ names,
    ∀ c ∈ (task i).domains, matchDomain d c = false

/-- A goroutine locks domains only when it has seen all certificates, no certificate is on its way
    to them, and its domains are in nobody's way. -/
def Orderly (s : State ι) : Act ι → Prop
  | .check i => s.pc i = .looked (s.allDomains given) ∧ (∀ j names, s.pc j ≠ .removed names) ∧
      s.Clear task i
  | .resolveDefault i => s.Clear task i ∧ ∀ j ≠ i, ∀ d ∈ (s.pc j).held, d ∉ (task i).domains
  | _ => True

/-- The domain is one of a certificate, or will be. -/
def State.Known (s : State ι) (c : String) : Prop :=
  isDomainAlreadyChecked c (s.allDomains given) = true ∨
    ∃ k, ∃ c' ∈ (s.pc k).pending, matchDomain c c' = true

/-- The strings a goroutine has put into the set. -/
def Pc.locks (task : Task) (pc : Pc) : List String :=
  if pc.holds then task.unlocks pc.held else []

/-- What holds in orderly runs. -/
structure Inv (s : State ι) : Prop where
  sub : ∀ i, ∀ d ∈ (s.pc i).pending, d ∈ (task i).domains
  whole : ∀ i, (task i).isDefault = true → (s.pc i).holds = true → (s.pc i).held = (task i).domains
  held : ∀ i, ∀ d ∈ (s.pc i).held, d ∈ s.resolvingDomains
  disjoint : ∀ i j, i ≠ j → ∀ d ∈ (s.pc i).held, d ∉ (s.pc j).held
  origin : ∀ r ∈ s.resolvingDomains, ∃ j, r ∈ (s.pc j).locks (task j)
  known : ∀ j, (s.pc j).entered = true → ∀ c ∈ (task j).domains, s.Known given c
  alone : ∀ i names, s.pc i = .locked names → (task i).isDefault = false → ∀ d ∈ names, ∀ j ≠ i,
    (s.pc j).entered = true → ∀ c ∈ (task j).domains, matchDomain d c = false

variable {given task} {s : State ι} {i : ι}

/-! ## Names -/

variable {existent : List String} {c : String}

theorem isDomainAlreadyChecked_iff :
    isDomainAlreadyChecked c existent = true ↔
      ∃ certDomains ∈ existent, ∃ d ∈ split ',' certDomains, matchDomain c d = true := by
  simp only [isDomainAlreadyChecked, any_eq_true]

theorem isDomainAlreadyChecked_mono {existent existent' : List String}
    (hsub : ∀ e ∈ existent, e ∈ existent') (h : isDomainAlreadyChecked c existent = true) :
    isDomainAlreadyChecked c existent' = true := by
  obtain ⟨certDomains, hmem, hd⟩ := isDomainAlreadyChecked_iff.mp h
  exact isDomainAlreadyChecked_iff.mpr ⟨certDomains, hsub _ hmem, hd⟩

/-- A domain that a checked domain covers is checked. -/
theorem isDomainAlreadyChecked_trans {d c : String} (hc : Plain c)
    (hmatch : matchDomain d c = true) (h : isDomainAlreadyChecked c existent = true) :
    isDomainAlreadyChecked d existent = true := by
  obtain ⟨certDomains, hmem, e, he, hce⟩ := isDomainAlreadyChecked_iff.mp h
  exact isDomainAlreadyChecked_iff.mpr
    ⟨certDomains, hmem, e, he, matchDomain_trans hc.dot hmatch hce⟩

/-- A plain name in the list checks itself. -/
theorem isDomainAlreadyChecked_of_mem {c d : String} (hd : Plain d)
    (hmem : d ∈ existent) (hmatch : matchDomain c d = true) :
    isDomainAlreadyChecked c existent = true :=
  isDomainAlreadyChecked_iff.mpr
    ⟨d, hmem, d, by rw [split_eq_singleton hd.comma]; exact (.head _), hmatch⟩

theorem mem_searchUncheckedDomains {doms existent : List String} :
    d ∈ searchUncheckedDomains doms existent ↔
      d ∈ doms ∧ isDomainAlreadyChecked d existent = false := by
  simp only [searchUncheckedDomains, mem_filter, Bool.not_eq_true']

theorem split_key {task : Task} (hplain : ∀ d ∈ task.domains, Plain d) :
    split ',' task.key = sortStrings task.domains := by
  have hperm : (sortStrings task.domains).Perm task.domains := perm_insertionSort ..
  refine split_join ?_ fun d hd => (hplain d (hperm.mem_iff.mp hd)).comma
  intro hnil
  rw [hnil] at hperm
  exact task.nonempty hperm.nil_eq.symm

variable {names : List String}

open Domain

/-- The names that a certificate is added for can be read back from it. -/
theorem split_ofNames (hne : names ≠ []) (hplain : ∀ d ∈ names, Plain d) :
    split ',' (join ',' (ofNames names).toStrArray) = names := by
  match names with
  | [] => exact absurd rfl hne
  | main :: sans =>
    have hmain := (hplain main (.head _)).ne_empty
    have harray : (ofNames (main :: sans)).toStrArray = main :: sans := by
      simp [ofNames, toStrArray, hmain]
    rw [harray]
    exact split_join hne fun d hd => (hplain d hd).comma

/-! ## Steps -/

@[simp] theorem goto_pc_self (s : State ι) (i : ι) (pc : Pc) : (s.goto i pc).pc i = pc :=
  update_self ..

theorem goto_pc_ne (s : State ι) (i : ι) (pc : Pc) : ∀ j ≠ i, (s.goto i pc).pc j = s.pc j :=
  fun _ h => update_of_ne h ..

variable {s' : State ι}

omit [DecidableEq ι] in
/-- What does not change at the goroutine that moves on does not change at any. -/
theorem view_eq {α : Type} (view : Pc → α) (hother : ∀ j ≠ i, s'.pc j = s.pc j)
    (h : view (s'.pc i) = view (s.pc i)) (j : ι) : view (s'.pc j) = view (s.pc j) := by
  by_cases hj : j = i
  · rw [hj, h]
  · rw [hother j hj]

omit [DecidableEq ι] in
/-- A step that locks and unlocks nothing. -/
theorem Inv.move (hs : Inv given task s) (hother : ∀ j ≠ i, s'.pc j = s.pc j)
    (hresolving : s'.resolvingDomains = s.resolvingDomains)
    (hholds : (s'.pc i).holds = (s.pc i).holds) (hheld : (s'.pc i).held = (s.pc i).held)
    (hpend : ∀ d ∈ (s'.pc i).pending, d ∈ (s.pc i).pending)
    (henter : (s'.pc i).entered = (s.pc i).entered) (hlocked : ∀ names, s'.pc i ≠ .locked names)
    (hknown : ∀ c, s.Known given c → s'.Known given c) : Inv given task s' := by
  have hholds := view_eq Pc.holds hother hholds
  have hheld := view_eq Pc.held hother hheld
  have henter := view_eq Pc.entered hother henter
  refine ⟨fun j d hd => ?_, fun j => ?_, fun j => ?_, fun j k => ?_, fun r hr => ?_, fun j => ?_, ?_⟩
  · by_cases hji : j = i
    · subst hji
      exact hs.sub j d (hpend d hd)
    · rw [hother j hji] at hd
      exact hs.sub j d hd
  · rw [hheld, hholds]
    exact hs.whole j
  · rw [hheld, hresolving]
    exact hs.held j
  · rw [hheld, hheld]
    exact hs.disjoint j k
  · rw [hresolving] at hr
    obtain ⟨j, hj⟩ := hs.origin r hr
    refine ⟨j, ?_⟩
    rw [Pc.locks, hheld, hholds]
    exact hj
  · rw [henter]
    exact fun hj c hc => hknown c (hs.known j hj c hc)
  · intro j names hj hdef d hd k hk
    rw [henter]
    have hji : j ≠ i := by
      rintro rfl
      exact hlocked names hj
    rw [hother j hji] at hj
    exact hs.alone j names hj hdef d hd k hk

omit [DecidableEq ι] in
/-- What is known stays known while the domains on their way only grow. -/
theorem State.Known.mono (hcerts : s'.certificates = s.certificates)
    (hpend : ∀ j, ∀ d ∈ (s.pc j).pending, d ∈ (s'.pc j).pending) (h : s.Known given c) :
    s'.Known given c := by
  rcases h with hcert | ⟨k, c', hc', hmatch⟩
  · refine .inl ?_
    rw [State.allDomains, hcerts]
    exact hcert
  · exact .inr ⟨k, c', hpend k c' hc', hmatch⟩

omit [DecidableEq ι] in
/-- A step that locks `names`. -/
theorem Inv.lock (hs : Inv given task s) {names added : List String}
    (hother : ∀ j ≠ i, s'.pc j = s.pc j) (hcerts : s'.certificates = s.certificates)
    (hresolving : s'.resolvingDomains = s.resolvingDomains ++ added)
    (hbefore : (s.pc i).entered = false) (hafter : s'.pc i = .locked names)
    (hsub : ∀ d ∈ names, d ∈ (task i).domains)
    (hwhole : (task i).isDefault = true → names = (task i).domains)
    (hnames : ∀ d ∈ names, d ∈ added) (hadded : ∀ r ∈ added, r ∈ (task i).unlocks names)
    (hdisjoint : ∀ j ≠ i, ∀ d ∈ (s.pc j).held, d ∉ names)
    (hknown : ∀ c ∈ (task i).domains, c ∈ names ∨ s.Known given c) (hclear : s.Clear task i)
    (halone : (task i).isDefault = false → ∀ d ∈ names, ∀ j ≠ i, (s.pc j).entered = true →
      ∀ c ∈ (task j).domains, matchDomain d c = false) :
    Inv given task s' := by
  have hlater : ∀ c, s.Known given c → s'.Known given c := by
    intro c
    refine State.Known.mono hcerts fun j d hd => ?_
    have hji : j ≠ i := by
      rintro rfl
      rw [Pc.pending_of_not_entered hbefore] at hd
      cases hd
    rw [hother j hji]
    exact hd
  refine ⟨fun j d hd => ?_, fun j hdef hj => ?_, fun j d hd => ?_, fun j k hjk d hd hd' => ?_,
    fun r hr => ?_, fun j hj c hc => ?_, fun j names' hj hdef d hd k hk henter c hc => ?_⟩
  · by_cases hji : j = i
    · subst hji
      rw [hafter] at hd
      exact hsub d hd
    · rw [hother j hji] at hd
      exact hs.sub j d hd
  · by_cases hji : j = i
    · subst hji
      rw [hafter]
      exact hwhole hdef
    · rw [hother j hji] at hj ⊢
      exact hs.whole j hdef hj
  · rw [hresolving, mem_append]
    by_cases hji : j = i
    · subst hji
      rw [hafter] at hd
      exact .inr (hnames d hd)
    · rw [hother j hji] at hd
      exact .inl (hs.held j d hd)
  · -- at most one of the two is the goroutine that locks
    by_cases hji : j = i
    · subst hji
      rw [hafter] at hd
      rw [hother k (Ne.symm hjk)] at hd'
      exact hdisjoint k (Ne.symm hjk) d hd' hd
    · rw [hother j hji] at hd
      by_cases hki : k = i
      · subst hki
        rw [hafter] at hd'
        exact hdisjoint j hji d hd hd'
      · rw [hother k hki] at hd'
        exact hs.disjoint j k hjk d hd hd'
  · rw [hresolving] at hr
    rcases mem_append.mp hr with hr | hr
    · obtain ⟨j, hj⟩ := hs.origin r hr
      have hji : j ≠ i := by
        rintro rfl
        rw [Pc.locks, Pc.holds_of_not_entered hbefore] at hj
        cases hj
      exact ⟨j, by rw [hother j hji]; exact hj⟩
    · exact ⟨i, by rw [hafter]; exact hadded r hr⟩
  · by_cases hji : j = i
    · subst hji
      rcases hknown c hc with hname | hknown
      · exact .inr ⟨j, c, by rw [hafter]; exact hname, matchDomain_self c⟩
      · exact hlater c hknown
    · rw [hother j hji] at hj
      exact hlater c (hs.known j hj c hc)
  · by_cases hji : j = i
    · subst hji
      rw [hafter] at hj
      rw [hother k hk] at henter
      cases hj
      exact halone hdef d hd k hk henter c hc
    · rw [hother j hji] at hj
      by_cases hki : k = i
      · subst hki
        exact hclear j hji names' hj hdef d hd c hc
      · rw [hother k hki] at henter
        exact hs.alone j names' hj hdef d hd k hk henter c hc

section
variable (hs : Inv given task s)
include hs

omit [DecidableEq ι] in
/-- What a goroutine unlocks is locked by no other one. -/
theorem Inv.not_mem_unlocks (hplain : ∀ i, ∀ d ∈ (task i).domains, Plain d)
    (hholds : (s.pc i).holds = true) {j : ι} (hj : j ≠ i) (hd : d ∈ (s.pc j).held) :
    d ∉ (task i).unlocks (s.pc i).held := by
  have hnot : d ∉ (s.pc i).held := hs.disjoint j i hj d hd
  unfold Task.unlocks
  split
  · next hdef =>
    rw [mem_append, mem_singleton]
    rintro (hmem | rfl)
    · exact hnot hmem
    · -- a plain key is its own only domain
      have hsplit := split_key (hplain i)
      have hkey := hplain j _ (hs.sub j _ (Pc.held_subset_pending hd))
      rw [split_eq_singleton hkey.comma] at hsplit
      have hperm : (sortStrings (task i).domains).Perm (task i).domains := perm_insertionSort ..
      rw [← hsplit] at hperm
      refine hnot ?_
      rw [hs.whole i hdef hholds]
      exact hperm.mem_iff.mp (.head _)
  · exact hnot

/-- `removeResolvingDomains` of a goroutine with its certificate. -/
theorem Inv.remove (hplain : ∀ i, ∀ d ∈ (task i).domains, Plain d)
    (hpc : s.pc i = .obtained names) :
    Inv given task ((s.removeResolvingDomains ((task i).unlocks names)).goto i (.removed names)) := by
  generalize hs' : (s.removeResolvingDomains ((task i).unlocks names)).goto i (.removed names) = s'
  have hother : ∀ j ≠ i, s'.pc j = s.pc j := hs' ▸ goto_pc_ne _ i _
  have hafter : s'.pc i = .removed names := hs' ▸ goto_pc_self _ i _
  have hresolving : ∀ r, r ∈ s'.resolvingDomains ↔
      r ∈ s.resolvingDomains ∧ r ∉ (task i).unlocks names := by
    intro r
    rw [← hs']
    simp only [State.goto, State.removeResolvingDomains, mem_filter, decide_eq_true_eq]
  have hpend : ∀ j, (s'.pc j).pending = (s.pc j).pending :=
    view_eq Pc.pending hother (by rw [hafter, hpc]; rfl)
  have henter : ∀ j, (s'.pc j).entered = (s.pc j).entered :=
    view_eq Pc.entered hother (by rw [hafter, hpc]; rfl)
  have hholder : ∀ {j d}, d ∈ (s'.pc j).held → j ≠ i := by
    rintro j d hd rfl
    rw [hafter] at hd
    cases hd
  refine ⟨fun j => ?_, fun j hdef hj => ?_, fun j d hd => ?_, fun j k hjk d hd hd' => ?_,
    fun r hr => ?_, fun j => ?_, fun j names' hj hdef d hd k hk => ?_⟩
  · rw [hpend]
    exact hs.sub j
  · have hji : j ≠ i := by
      rintro rfl
      rw [hafter] at hj
      cases hj
    rw [hother j hji] at hj ⊢
    exact hs.whole j hdef hj
  · have hji := hholder hd
    rw [hother j hji] at hd
    have hnot := hs.not_mem_unlocks hplain (by rw [hpc]; rfl) hji hd
    rw [hpc] at hnot
    exact (hresolving d).mpr ⟨hs.held j d hd, hnot⟩
  · rw [hother j (hholder hd)] at hd
    rw [hother k (hholder hd')] at hd'
    exact hs.disjoint j k hjk d hd hd'
  · obtain ⟨hmem, hnot⟩ := (hresolving r).mp hr
    obtain ⟨j, hj⟩ := hs.origin r hmem
    have hji : j ≠ i := by
      rintro rfl
      rw [hpc] at hj
      exact hnot hj
    exact ⟨j, by rw [hother j hji]; exact hj⟩
  · rw [henter]
    intro hj c hc
    refine (hs.known j hj c hc).mono (by rw [← hs']; rfl) fun k d hd => ?_
    rw [hpend]
    exact hd
  · rw [henter]
    have hji : j ≠ i := by
      rintro rfl
      rw [hafter] at hj
      cases hj
    rw [hother j hji] at hj
    exact hs.alone j names' hj hdef d hd k hk

/-- What is added covers what it was on its way for. -/
theorem Inv.known_add (hplain : ∀ i, ∀ d ∈ (task i).domains, Plain d)
    (hpc : s.pc i = .removed names) (h : s.Known given c) :
    ((s.addCertificateForDomain (.ofNames names)).goto i (.done names)).Known given c := by
  generalize hs' : (s.addCertificateForDomain (.ofNames names)).goto i (.done names) = s'
  have hcerts : ofNames names ∈ s'.certificates ∧ ∀ d ∈ s.certificates, d ∈ s'.certificates := by
    rw [← hs']
    unfold State.goto State.addCertificateForDomain
    split
    · next hmem => exact ⟨hmem, fun d hd => hd⟩
    · exact ⟨mem_append.mpr (.inr (.head _)), fun d hd => mem_append.mpr (.inl hd)⟩
  rcases h with hcert | ⟨k, c', hc', hmatch⟩
  · refine .inl (isDomainAlreadyChecked_mono (fun e he => ?_) hcert)
    rcases mem_append.mp he with hgiven | he
    · exact mem_append.mpr (.inl hgiven)
    · obtain ⟨d, hd, rfl⟩ := mem_map.mp he
      exact mem_append.mpr (.inr (mem_map.mpr ⟨d, hcerts.2 d hd, rfl⟩))
  · by_cases hki : k = i
    · subst hki
      have hplain' : ∀ d ∈ names, Plain d := fun d hd =>
        hplain k d (hs.sub k d (by rw [hpc]; exact hd))
      have hname : c' ∈ names := by
        rw [hpc] at hc'
        exact hc'
      refine .inl (isDomainAlreadyChecked_iff.mpr
        ⟨join ',' (ofNames names).toStrArray, ?_, c', ?_, hmatch⟩)
      · exact mem_append.mpr (.inr (mem_map.mpr ⟨_, hcerts.1, rfl⟩))
      · rw [split_ofNames (ne_nil_of_mem hname) hplain']
        exact hname
    · have hk : s'.pc k = s.pc k := by
        rw [← hs', goto_pc_ne _ i _ k hki]
        unfold State.addCertificateForDomain
        split <;> rfl
      exact .inr ⟨k, c', by rw [hk]; exact hc', hmatch⟩

/-- `addCertificateForDomain` of a goroutine that has unlocked its domains. -/
theorem Inv.add (hplain : ∀ i, ∀ d ∈ (task i).domains, Plain d) (hpc : s.pc i = .removed names) :
    Inv given task ((s.addCertificateForDomain (.ofNames names)).goto i (.done names)) := by
  have hsame : (s.addCertificateForDomain (.ofNames names)).resolvingDomains = s.resolvingDomains ∧
      (s.addCertificateForDomain (.ofNames names)).pc = s.pc := by
    unfold State.addCertificateForDomain
    split <;> exact ⟨rfl, rfl⟩
  have hother := goto_pc_ne (s.addCertificateForDomain (.ofNames names)) i (.done names)
  rw [hsame.2] at hother
  refine hs.move hother hsame.1 ?_ ?_ ?_ ?_ ?_ fun c => hs.known_add hplain hpc
  · rw [goto_pc_self, hpc]
    rfl
  · rw [goto_pc_self, hpc]
    rfl
  · rw [goto_pc_self]
    intro d hd
    cases hd
  · rw [goto_pc_self, hpc]
    rfl
  · rw [goto_pc_self]
    intro names' h
    cases h

/-- A step that changes neither the certificates nor the locked domains. -/
theorem Inv.goto (hholds : pc.holds = (s.pc i).holds)
    (hheld : pc.held = (s.pc i).held) (hpend : pc.pending = (s.pc i).pending)
    (henter : pc.entered = (s.pc i).entered) (hlocked : ∀ names, pc ≠ .locked names) :
    Inv given task (s.goto i pc) := by
  have hother := goto_pc_ne s i pc
  have hcerts : (s.goto i pc).certificates = s.certificates := rfl
  rw [← goto_pc_self s i pc] at hholds hheld hpend henter hlocked
  refine hs.move hother rfl hholds hheld (fun d hd => ?_) henter hlocked fun c h => ?_
  · rw [← hpend]
    exact hd
  · refine h.mono hcerts fun j d hd => ?_
    rw [view_eq Pc.pending hother hpend]
    exact hd

end

omit [DecidableEq ι] in
/-- What is written in the set is a domain that somebody holds. -/
theorem Inv.mem_held_of_split (hs : Inv given task s)
    (hplain : ∀ i, ∀ d ∈ (task i).domains, Plain d) {r d : String} (hr : r ∈ s.resolvingDomains)
    (hd : d ∈ split ',' r) : ∃ j, d ∈ (s.pc j).held := by
  obtain ⟨j, hj⟩ := hs.origin r hr
  refine ⟨j, ?_⟩
  unfold Pc.locks at hj
  split at hj
  · next hholds =>
    have hname : r ∈ (s.pc j).held → d ∈ (s.pc j).held := by
      intro hr
      have hcomma := (hplain j r (hs.sub j r (Pc.held_subset_pending hr))).comma
      rw [split_eq_singleton hcomma, mem_singleton] at hd
      rwa [hd]
    unfold Task.unlocks at hj
    split at hj
    · next hdef =>
      rcases mem_append.mp hj with hr | hr
      · exact hname hr
      · rw [mem_singleton.mp hr, split_key (hplain j)] at hd
        rw [hs.whole j hdef hholds]
        exact (perm_insertionSort (· ≤ ·) (task j).domains).mem_iff.mp hd
    · exact hname hj
  · cases hj

/-- The section of `getUncheckedDomains`. -/
theorem Inv.check (hs : Inv given task s) (hplain : ∀ i, ∀ d ∈ (task i).domains, Plain d)
    (hdef : (task i).isDefault = false) (hpc : s.pc i = .looked (s.allDomains given))
    (hremoved : ∀ j names, s.pc j ≠ .removed names) (hclear : s.Clear task i) :
    Inv given task (s.check task i (s.allDomains given)) := by
  have henter : (s.pc i).entered = false := by
    rw [hpc]
    rfl
  dsimp only [State.check]
  split
  · refine hs.goto ?_ ?_ ?_ ?_ nofun <;> rw [hpc] <;> rfl
  have hheld : ∀ {j c d}, c ∈ (s.pc j).held → matchDomain d c = true →
      isDomainAlreadyChecked d (s.allDomains given ++ s.resolvingDomains) = true := by
    intro j c d hc hmatch
    have hc' := hplain j c (hs.sub j c (Pc.held_subset_pending hc))
    exact isDomainAlreadyChecked_of_mem hc' (mem_append.mpr (.inr (hs.held j c hc))) hmatch
  refine hs.lock (goto_pc_ne _ i _) rfl rfl henter (goto_pc_self _ i _)
    (fun d hd => (mem_searchUncheckedDomains.mp hd).1) (fun h => ?_) (fun d hd => hd)
    (fun r hr => ?_) (fun j _ d hd hd' => ?_) (fun c hc => ?_) hclear
    fun _ d hd j _ hj c hc => ?_
  · rw [hdef] at h
    cases h
  · rw [Task.unlocks, hdef]
    exact hr
  · have hunchecked := (mem_searchUncheckedDomains.mp hd').2
    rw [hheld hd (matchDomain_self d)] at hunchecked
    cases hunchecked
  · match hchecked : isDomainAlreadyChecked c (s.allDomains given ++ s.resolvingDomains) with
    | false => exact .inl (mem_searchUncheckedDomains.mpr ⟨hc, hchecked⟩)
    | true =>
      obtain ⟨r, hr, d, hd, hmatch⟩ := isDomainAlreadyChecked_iff.mp hchecked
      rcases mem_append.mp hr with hr | hr
      · exact .inr (.inl (isDomainAlreadyChecked_iff.mpr ⟨r, hr, d, hd, hmatch⟩))
      · obtain ⟨k, hk⟩ := hs.mem_held_of_split hplain hr hd
        exact .inr (.inr ⟨k, d, Pc.held_subset_pending hk, hmatch⟩)
  · -- a cover of the domain is known, so the domain has been checked
    have hunchecked := (mem_searchUncheckedDomains.mp hd).2
    by_contra hcover
    rw [Bool.not_eq_false] at hcover
    have hchecked : isDomainAlreadyChecked d (s.allDomains given ++ s.resolvingDomains) = true := by
      rcases hs.known j hj c hc with hcert | ⟨k, c', hc', hmatch⟩
      · exact isDomainAlreadyChecked_mono (fun e he => mem_append.mpr (.inl he))
          (isDomainAlreadyChecked_trans (hplain j c hc) hcover hcert)
      · exact hheld (Pc.held_of_pending (hremoved k) hc')
          (matchDomain_trans (hplain j c hc).dot hcover hmatch)
    rw [hchecked] at hunchecked
    cases hunchecked

/-- The section of `resolveDefaultCertificate`. -/
theorem Inv.resolveDefault (hs : Inv given task s) (hdef : (task i).isDefault = true)
    (hpc : s.pc i = .start) (hclear : s.Clear task i)
    (hdisjoint : ∀ j ≠ i, ∀ d ∈ (s.pc j).held, d ∉ (task i).domains) :
    Inv given task (s.resolveDefault task i) := by
  have henter : (s.pc i).entered = false := by
    rw [hpc]
    rfl
  unfold State.resolveDefault
  split
  · refine hs.goto ?_ ?_ ?_ ?_ nofun <;> rw [hpc] <;> rfl
  refine hs.lock (goto_pc_ne _ i _) rfl rfl henter (goto_pc_self _ i _) (fun d hd => hd)
    (fun _ => rfl) (fun d hd => .tail _ hd) (fun r hr => ?_) hdisjoint
    (fun c hc => .inl hc) hclear fun h => ?_
  · rw [Task.unlocks, hdef, if_pos rfl, mem_append, mem_singleton]
    exact (mem_cons.mp hr).symm
  · rw [hdef] at h
    cases h

/-- Every orderly step keeps the invariant. -/
theorem Inv.step (hs : Inv given task s) (hplain : ∀ i, ∀ d ∈ (task i).domains, Plain d)
    {act : Act ι} (horderly : Orderly given task s act)
    (hstep : s.step given task act s') : Inv given task s' := by
  match act with
  | .look i =>
    obtain ⟨-, hpc, rfl⟩ := hstep
    refine hs.goto ?_ ?_ ?_ ?_ nofun <;> rw [hpc] <;> rfl
  | .check i =>
    obtain ⟨hdef, allDomains, hpc, rfl⟩ := hstep
    obtain ⟨hpc', hremoved, hclear⟩ := horderly
    obtain rfl : allDomains = s.allDomains given := by
      rw [hpc] at hpc'
      exact Pc.looked.inj hpc'
    exact hs.check hplain hdef hpc hremoved hclear
  | .resolveDefault i =>
    obtain ⟨hdef, hpc, rfl⟩ := hstep
    exact hs.resolveDefault hdef hpc horderly.1 horderly.2
  | .request i | .obtain i =>
    obtain ⟨names, hpc, rfl⟩ := hstep
    refine hs.goto ?_ ?_ ?_ ?_ nofun <;> rw [hpc] <;> rfl
  | .remove i =>
    obtain ⟨names, hpc, rfl⟩ := hstep
    exact hs.remove hplain hpc
  | .add i =>
    obtain ⟨names, hpc, rfl⟩ := hstep
    exact hs.add hplain hpc

/-- The invariant holds in orderly runs. -/
theorem inv_of_reachable {stored : List Domain} (hplain : ∀ i, ∀ d ∈ (task i).domains, Plain d)
    (hs : ((acme given task stored).restrict (Orderly given task)).Reachable s) :
    Inv given task s := by
  refine System.invariant (Inv given task) ?_ ?_ hs
  · rintro s rfl
    exact ⟨nofun, nofun, nofun, nofun, nofun, nofun, nofun⟩
  · intro s act s' hs hstep
    exact hs.step hplain hstep.1 hstep.2

/-! ## Requests -/

/-- In orderly runs a domain that `resolveCertificate` is about to ask for is covered by no
    certificate that was obtained in the run, and nobody else is resolving it. -/
theorem request_needed (stored : List Domain) (hplain : ∀ i, ∀ d ∈ (task i).domains, Plain d)
    (hs : ((acme given task stored).restrict (Orderly given task)).Reachable s)
    {names : List String} (hlocked : s.pc i = .locked names) (hdefault : (task i).isDefault = false)
    {d : String} (hd : d ∈ names) :
    (∀ j, (s.pc j).hasObtained = true → ∀ c ∈ (task j).domains, matchDomain d c = false) ∧
      ∀ j ≠ i, d ∉ (s.pc j).held := by
  have hinv := inv_of_reachable hplain hs
  refine ⟨fun j hj => ?_, fun j hj => ?_⟩
  · have hji : j ≠ i := by
      rintro rfl
      rw [hlocked] at hj
      cases hj
    exact hinv.alone i names hlocked hdefault d hd j hji (Pc.entered_of_hasObtained hj)
  · refine hinv.disjoint i j (Ne.symm hj) d ?_
    rw [hlocked]
    exact hd

/-- Two goroutines for one domain. -/
def shared : Fin 2 → Task := fun _ => ⟨false, ["a"], nofun⟩

/-- Two goroutines and no certificate. -/
def pair (resolvingDomains : List String) (first second : Pc) : State (Fin 2) :=
  ⟨[], resolvingDomains, fun i => if i = 0 then first else second⟩

theorem goto_zero (r : List String) (first second pc : Pc) :
    (pair r first second).goto 0 pc = pair r pc second := by
  refine congrArg (State.mk [] r) (funext fun i => ?_)
  by_cases hi : i = 0
  · rw [hi, update_self, if_pos rfl]
  · rw [update_of_ne hi, if_neg hi]
    exact if_neg hi

theorem goto_one (r : List String) (first second pc : Pc) :
    (pair r first second).goto 1 pc = pair r first pc := by
  refine congrArg (State.mk [] r) (funext (Fin.forall_fin_two.mpr ⟨?_, ?_⟩))
  · rfl
  · rfl

theorem pair_init : (acme [] shared []).init (pair [] .start .start) := by
  refine congrArg (State.mk [] []) (funext fun i => ?_)
  exact ite_self _

/-- The first goroutine finds its domain unchecked. -/
theorem first_locks : (pair [] .start .start).step [] shared (.look 0) (pair [] (.looked []) .start) ∧
    (pair [] (.looked []) .start).step [] shared (.check 0) (pair ["a"] (.locked ["a"]) .start) :=
  ⟨⟨rfl, rfl, (goto_zero ..).symm⟩, rfl, [], rfl, (goto_zero ["a"] ..).symm⟩

theorem request_needed_shared :
    (∀ j, ((pair ["a"] (.locked ["a"]) .start).pc j).hasObtained = true →
      ∀ c ∈ (shared j).domains, matchDomain "a" c = false) ∧
      ∀ j ≠ 0, "a" ∉ ((pair ["a"] (.locked ["a"]) .start).pc j).held := by
  have hplain : ∀ i, ∀ d ∈ (shared i).domains, Plain d := by
    intro i d hd
    rw [mem_singleton.mp hd]
    exact ⟨by decide, by decide, by decide⟩
  have horderly : Orderly [] shared (pair [] (.looked []) .start) (.check 0) :=
    ⟨rfl, by simp [pair, Fin.forall_fin_two], by simp [State.Clear, pair, Fin.forall_fin_two]⟩
  exact request_needed [] hplain
    (.step (.check 0) (.step (.look 0) (.init pair_init) ⟨trivial, first_locks.1⟩)
      ⟨horderly, first_locks.2⟩)
    rfl rfl (.head _)

/-- The first goroutine unlocks its domain before it adds its certificate, and the second one
    finds the domain unchecked. -/
theorem asked_for_twice :
    (acme [] shared []).Reachable (pair ["a"] (.removed ["a"]) (.locked ["a"])) ∧
      ((pair ["a"] (.removed ["a"]) (.locked ["a"])).pc 0).hasObtained = true ∧
      "a" ∈ (shared 0).domains ∧ matchDomain "a" "a" = true := by
  refine ⟨?_, rfl, (.head _), matchDomain_self "a"⟩
  have hlocked : (acme [] shared []).Reachable (pair ["a"] (.locked ["a"]) .start) :=
    .step (.check 0) (.step (.look 0) (.init pair_init) first_locks.1) first_locks.2
  have hrequested : (acme [] shared []).Reachable (pair ["a"] (.requested ["a"]) .start) :=
    .step (.request 0) hlocked ⟨_, rfl, (goto_zero ..).symm⟩
  have hobtained : (acme [] shared []).Reachable (pair ["a"] (.obtained ["a"]) .start) :=
    .step (.obtain 0) hrequested ⟨_, rfl, (goto_zero ..).symm⟩
  have hremoved : (acme [] shared []).Reachable (pair [] (.removed ["a"]) .start) :=
    .step (.remove 0) hobtained ⟨_, rfl, (goto_zero [] ..).symm⟩
  have hlooked : (acme [] shared []).Reachable (pair [] (.removed ["a"]) (.looked [])) :=
    .step (.look 1) hremoved ⟨rfl, rfl, (goto_one ..).symm⟩
  exact .step (.check 1) hlooked ⟨rfl, [], rfl, (goto_one ["a"] ..).symm⟩

end Ingress.Acme
