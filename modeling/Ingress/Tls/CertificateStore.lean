import Ingress.Framework.Journal
import Ingress.Framework.System
import Ingress.Http.RequestHeader
import Ingress.Tls.Domains

/-! # The Certificate Store

    `pkg/tls`: a store maps lists of domains, joined by commas, to certificates.
    `GetBestCertificate` takes the certificate of the greatest domain that matches a server name,
    and `GetCertificate` the first one that has all the domains it is asked for.  Both keep what
    they found in one cache.

    The order in which the map of a store is walked is a parameter of each call, and entries of
    the cache may expire at any time.

    * `getBestCertificate`, `getCertificate`: the code.
    * `calls`: the caches that calls can lead to.
    * `Keeps`: what the cache can have for a name.
    * `best_iff`: when the certificate of a name is a function of the store. -/

open List LTS Journal Function Text

namespace Ingress.Tls

/-! ## The code -/

/-- The dynamic certificates of a store. -/
structure Store (C : Type) where
  entries : List (String × C)
  nodup : (entries.map Prod.fst).Nodup

/-- The cache of a store. -/
abbrev Cache (C : Type) := String → Option C

/-- What is read of a client hello. -/
structure ClientHello where
  serverName : String
  localAddr : String

variable {C : Type} (lower : String → String)

/-- The name a certificate is looked for with; `lower` is `strings.ToLower`. -/
def ClientHello.name (hello : ClientHello) : String :=
  let serverName := lower (trimSpace hello.serverName)
  if serverName.isEmpty then trimSpace ((Http.splitHostPort hello.localAddr).elim "" Prod.fst)
  else serverName

/-- The domains of an entry. -/
def domainsOf (entry : String × C) : List String :=
  split ',' entry.1

/-- The assignments for an entry. -/
def assignments (serverName : String) (entry : String × C) : List (String × C) :=
  ((domainsOf entry).filter (matchDomain serverName)).map fun certDomain => (certDomain, entry.2)

def matchedCerts (serverName : String) (order : List (String × C)) : Finmap fun _ : String => C :=
  replay ∅ (order.flatMap (assignments serverName))

def getBestCertificate (hello : ClientHello) (order : List (String × C))
    (cache : Cache C) : Option C × Cache C :=
  let serverName := hello.name lower
  match cache serverName with
  | some cert => (some cert, cache)
  | none =>
    let matched := matchedCerts serverName order
    match (matched.keys.sort (· ≤ ·)).getLast? with
    | none => (none, cache)
    | some key => (matched.lookup key, update cache serverName (matched.lookup key))

/-- Whether `GetCertificate` takes a certificate with the domains `certDomains`. -/
def fits (domains : List String) (certDomains : String) : Bool :=
  join ',' domains = certDomains ||
    ((split ',' certDomains).flatMap fun certDomain =>
      domains.filter fun checkDomain => certDomain = checkDomain).length = domains.length

def getCertificate (domains : List String) (order : List (String × C)) (cache : Cache C) :
    Option C × Cache C :=
  let domains := sortStrings domains
  let domainsKey := join ',' domains
  match cache domainsKey with
  | some cert => (some cert, cache)
  | none =>
    match order.find? fun entry => fits domains entry.1 with
    | none => (none, cache)
    | some entry => (some entry.2, update cache domainsKey (some entry.2))

/-- A call, with the order of its walk, or the end of an entry of the cache. -/
inductive Call (C : Type) where
  | best (hello : ClientHello) (order : List (String × C))
  | get (domains : List String) (order : List (String × C))
  | expire (key : String)

/-- What a call does to the cache. -/
def Call.step (cache : Cache C) : Call C → Cache C
  | .best hello order => (getBestCertificate lower hello order cache).2
  | .get domains order => (getCertificate domains order cache).2
  | .expire key => update cache key none

/-- The call walks through the store. -/
def Call.Walks (store : Store C) : Call C → Prop
  | .best _ order => order.Perm store.entries
  | .get _ order => order.Perm store.entries
  | .expire _ => True

/-- Calls on a store, starting with an empty cache. -/
def calls (store : Store C) : System (Cache C) (Call C) where
  init := fun cache => cache = fun _ => none
  step := fun cache call cache' => call.Walks store ∧ cache' = call.step lower cache

/-! ## The greatest domain -/

variable {store : Store C} {s d : String} {order : List (String × C)} {cert : C}

/-- The domain of a certificate matches the name. -/
def Matching (store : Store C) (s d : String) : Prop :=
  ∃ entry ∈ store.entries, d ∈ domainsOf entry ∧ matchDomain s d = true

/-- The greatest of the domains that match the name. -/
def Greatest (store : Store C) (s d : String) : Prop :=
  Matching store s d ∧ ∀ d', Matching store s d' → d' ≤ d

/-- The certificate is one of the greatest matching domain. -/
def Top (store : Store C) (s : String) (cert : C) : Prop :=
  ∃ d, Greatest store s d ∧ ∃ entry ∈ store.entries, d ∈ domainsOf entry ∧ entry.2 = cert

theorem mem_assignments {entry : String × C} :
    (d, cert) ∈ assignments s entry ↔ d ∈ domainsOf entry ∧ matchDomain s d = true ∧ entry.2 = cert := by
  simp [assignments, and_assoc]

theorem mem_keys_matchedCerts (hord : order.Perm store.entries) :
    d ∈ (matchedCerts s order).keys ↔ Matching store s d := by
  rw [Finmap.mem_keys, ← Finmap.lookup_isSome, matchedCerts, lookup_replay, Finmap.lookup_empty,
    Option.or_none, Option.isSome_iff_ne_none, Ne, last_eq_none_iff, not_not, mem_map]
  constructor
  · rintro ⟨⟨d', cert⟩, hw, rfl⟩
    obtain ⟨entry, hentry, hmem⟩ := mem_flatMap.mp hw
    obtain ⟨hd, hmatch, -⟩ := mem_assignments.mp hmem
    exact ⟨entry, hord.mem_iff.mp hentry, hd, hmatch⟩
  · rintro ⟨entry, hentry, hd, hmatch⟩
    exact ⟨(d, entry.2), mem_flatMap.mpr ⟨entry, hord.mem_iff.mpr hentry,
      mem_assignments.mpr ⟨hd, hmatch, rfl⟩⟩, rfl⟩

/-- What is assigned to a domain last is a certificate that has it. -/
theorem lookup_matchedCerts (hord : order.Perm store.entries)
    (h : (matchedCerts s order).lookup d = some cert) :
    ∃ entry ∈ store.entries, d ∈ domainsOf entry ∧ entry.2 = cert := by
  rw [matchedCerts, lookup_replay, Finmap.lookup_empty, Option.or_none] at h
  obtain ⟨entry, hentry, hmem⟩ := mem_flatMap.mp (mem_of_last h)
  obtain ⟨hd, -, hcert⟩ := mem_assignments.mp hmem
  exact ⟨entry, hord.mem_iff.mp hentry, hd, hcert⟩

/-- The last element of a sorted list. -/
theorem getLast?_sort (keys : Finset String) (key : String) :
    (keys.sort (· ≤ ·)).getLast? = some key ↔ key ∈ keys ∧ ∀ key' ∈ keys, key' ≤ key := by
  rcases keys.eq_empty_or_nonempty with rfl | hne
  · simp
  · have hlt : (keys.sort (· ≤ ·)).length - 1 < (keys.sort (· ≤ ·)).length := by
      rw [Finset.length_sort]
      exact Nat.sub_lt hne.card_pos Nat.one_pos
    rw [getLast?_eq_getElem?, getElem?_eq_getElem hlt, Finset.sorted_last_eq_max', Option.some_inj,
      Finset.max'_eq_iff]

/-- The last of the sorted keys is the greatest matching domain. -/
theorem getLast?_keys (hord : order.Perm store.entries) :
    ((matchedCerts s order).keys.sort (· ≤ ·)).getLast? = some d ↔ Greatest store s d := by
  rw [getLast?_sort, mem_keys_matchedCerts hord, Greatest]
  refine and_congr_right fun _ => forall_congr' fun d' => ?_
  rw [mem_keys_matchedCerts hord]

/-- Without the cache, a certificate of the greatest matching domain is found, if there is one. -/
theorem getBestCertificate_fresh (hello : ClientHello)
    (hord : order.Perm store.entries) {cache : Cache C} (hcache : cache (hello.name lower) = none) :
    ((∀ d, ¬ Matching store (hello.name lower) d) ∧
      getBestCertificate lower hello order cache = (none, cache)) ∨
    ∃ d cert, Greatest store (hello.name lower) d ∧
      (matchedCerts (hello.name lower) order).lookup d = some cert ∧
      getBestCertificate lower hello order cache =
        (some cert, update cache (hello.name lower) (some cert)) := by
  unfold getBestCertificate
  dsimp only
  rw [hcache]
  cases hlast : ((matchedCerts (hello.name lower) order).keys.sort (· ≤ ·)).getLast? with
  | none =>
    refine .inl ⟨fun d hd => ?_, rfl⟩
    rw [getLast?_eq_none_iff] at hlast
    have hmem := (Finset.mem_sort (· ≤ ·)).mpr ((mem_keys_matchedCerts hord).mpr hd)
    rw [hlast] at hmem
    cases hmem
  | some d =>
    have hgreatest := (getLast?_keys hord).mp hlast
    have hsome := (mem_keys_matchedCerts hord).mpr hgreatest.1
    rw [Finmap.mem_keys, ← Finmap.lookup_isSome] at hsome
    obtain ⟨cert, hcert⟩ := Option.isSome_iff_exists.mp hsome
    refine .inr ⟨d, cert, hgreatest, hcert, ?_⟩
    dsimp only
    rw [hcert]

/-! ## What is kept -/

/-- What the cache can have for a name: a certificate of its greatest matching domain, or one
    that `GetCertificate` takes for domains that join to the name. -/
def Keeps (store : Store C) (s : String) (cert : C) : Prop :=
  Top store s cert ∨
    ∃ domains, join ',' (sortStrings domains) = s ∧
      ∃ entry ∈ store.entries, fits (sortStrings domains) entry.1 = true ∧ entry.2 = cert

theorem keeps_of_reachable {cache : Cache C}
    (h : (calls lower store).Reachable cache) {s : String} {cert : C} (hcert : cache s = some cert) :
    Keeps store s cert := by
  have hupdate : ∀ {cache : Cache C} {key : String} {value : Option C},
      (∀ s cert, cache s = some cert → Keeps store s cert) →
      (∀ cert, value = some cert → Keeps store key cert) →
      ∀ s cert, update cache key value s = some cert → Keeps store s cert := by
    intro cache key value hcache hvalue s cert hs
    by_cases hkey : s = key
    · rw [hkey, update_self] at hs
      exact hkey ▸ hvalue cert hs
    · rw [update_of_ne hkey] at hs
      exact hcache s cert hs
  refine System.invariant (fun cache => ∀ s cert, cache s = some cert → Keeps store s cert) ?_ ?_ h s cert
    hcert
  · intro cache hinit s cert hs
    rw [show cache = _ from hinit] at hs
    cases hs
  · rintro cache call _ hcache ⟨hwalks, rfl⟩
    match call with
    | .best hello order =>
      show ∀ s cert, (getBestCertificate lower hello order cache).2 s = some cert → _
      cases hkept : cache (hello.name lower) with
      | some cert =>
        simp only [getBestCertificate, hkept]
        exact hcache
      | none =>
        rcases getBestCertificate_fresh lower hello hwalks hkept with ⟨-, heq⟩ | ⟨d, cert, hd, hlook, heq⟩
        · rw [heq]
          exact hcache
        · rw [heq]
          refine hupdate hcache fun cert' hcert' => .inl ⟨d, hd, ?_⟩
          rw [← Option.some.inj hcert']
          exact lookup_matchedCerts hwalks hlook
    | .get domains order =>
      show ∀ s cert, (getCertificate domains order cache).2 s = some cert → _
      unfold getCertificate
      dsimp only
      split
      · exact hcache
      · split
        · exact hcache
        · next entry hfind =>
          refine hupdate hcache fun cert' hcert' => .inr ⟨domains, rfl, entry, ?_, ?_, ?_⟩
          · exact (show order.Perm store.entries from hwalks).mem_iff.mp (mem_of_find?_eq_some hfind)
          · have hfits := find?_some hfind
            exact hfits
          · exact Option.some.inj hcert'
    | .expire key => exact hupdate hcache fun cert hcert => absurd hcert (by simp)

theorem keeps_get {doms : List String} {entry : String × C}
    (hentry : entry ∈ store.entries) (hfits : fits (sortStrings doms) entry.1 = true) :
    ∃ cache, (calls lower store).Reachable cache ∧
      cache (join ',' (sortStrings doms)) = some entry.2 := by
  obtain ⟨pre, after, hsplit⟩ := append_of_mem hentry
  have hperm : (entry :: (pre ++ after)).Perm store.entries := by
    rw [hsplit]
    exact perm_middle.symm
  refine ⟨_, .step (.get doms (entry :: (pre ++ after))) (.init rfl) ⟨hperm, rfl⟩, ?_⟩
  have hfind : (entry :: (pre ++ after)).find? (fun entry => fits (sortStrings doms) entry.1) =
      some entry := find?_cons_of_pos hfits
  simp [Call.step, getCertificate, hfind]

/-! ## The result -/

/-- How many labels of the name the domain covers. -/
def covered (s d : String) : ℕ :=
  if s = d then 0 else (candidates s).idxOf (trimDots d) + 1

/-- No domain of the store matches the name more closely than one of the certificate. -/
def Closest (store : Store C) (s : String) (cert : C) : Prop :=
  ∃ entry ∈ store.entries, entry.2 = cert ∧ ∃ d ∈ domainsOf entry, matchDomain s d = true ∧
    ∀ d', Matching store s d' → covered s d ≤ covered s d'

/-- What is right for a name. -/
def Fitting (store : Store C) (s : String) : Option C → Prop
  | none => ∀ d, ¬ Matching store s d
  | some cert => Closest store s cert

/-- The greatest matching domain is one of a single certificate, which matches as closely as any
    other, and which is the only one that `GetCertificate` can keep for the name. -/
structure Decided (store : Store C) (s : String) : Prop where
  single : ∀ cert cert', Top store s cert → Top store s cert' → cert = cert'
  closest : ∀ cert, Top store s cert → Closest store s cert
  kept : ∀ domains, join ',' (sortStrings domains) = s → ∀ entry ∈ store.entries,
    fits (sortStrings domains) entry.1 = true → Top store s entry.2

/-- A certificate of the greatest matching domain is found when its entry is walked last. -/
theorem best_of_top {hello : ClientHello} (h : Top store (hello.name lower) cert) :
    ∃ order, order.Perm store.entries ∧
      (getBestCertificate lower hello order fun _ => none).1 = some cert := by
  obtain ⟨d, hd, entry, hentry, hmem, rfl⟩ := h
  obtain ⟨pre, after, hsplit⟩ := append_of_mem hentry
  have hperm : (pre ++ after ++ [entry]).Perm store.entries := by
    rw [hsplit]
    exact (perm_append_singleton entry _).trans perm_middle.symm
  have hmatch : matchDomain (hello.name lower) d = true := by
    obtain ⟨-, -, -, hmatch⟩ := hd.1
    exact hmatch
  have hassigned : last d (assignments (hello.name lower) entry) = some entry.2 := by
    cases hlast : last d (assignments (hello.name lower) entry) with
    | none =>
      have hin := mem_map_of_mem (f := Prod.fst) (mem_assignments.mpr ⟨hmem, hmatch, rfl⟩)
      exact absurd hin (last_eq_none_iff.mp hlast)
    | some cert => rw [(mem_assignments.mp (mem_of_last hlast)).2.2]
  have hlook : (matchedCerts (hello.name lower) (pre ++ after ++ [entry])).lookup d = some entry.2 := by
    rw [matchedCerts, lookup_replay, flatMap_append, last_append, flatMap_singleton, hassigned]
    rfl
  refine ⟨_, hperm, ?_⟩
  rcases @getBestCertificate_fresh C lower store _ hello hperm (fun _ => none) rfl with
    ⟨hnone, -⟩ | ⟨d', cert, hd', hlookup', heq⟩
  · exact absurd hd.1 (hnone d)
  · have hsame : d' = d := le_antisymm (hd.2 d' hd'.1) (hd'.2 d hd.1)
    rw [heq]
    rw [hsame, hlook] at hlookup'
    exact hlookup'.symm

/-- **The certificate of a name is a function of the store, and the right one**, for all calls
    before and all orders of the walks, exactly when the name is decided. -/
theorem best_iff (store : Store C) (hello : ClientHello) :
    (∃ result, (∀ cache, (calls lower store).Reachable cache → ∀ order, order.Perm store.entries →
        (getBestCertificate lower hello order cache).1 = result) ∧
      Fitting store (hello.name lower) result) ↔ Decided store (hello.name lower) := by
  have hstart : (calls lower store).Reachable fun _ => none := .init rfl
  constructor
  · rintro ⟨result, hres, hfitting⟩
    have htop : ∀ cert, Top store (hello.name lower) cert → result = some cert := by
      intro cert hcert
      obtain ⟨order, hperm, hbest⟩ := best_of_top lower hcert
      rw [← hres _ hstart order hperm, hbest]
    refine ⟨fun cert cert' hcert hcert' => ?_, fun cert hcert => ?_, fun doms hjoin entry hentry hfits => ?_⟩
    · exact Option.some.inj ((htop cert hcert).symm.trans (htop cert' hcert'))
    · rw [htop cert hcert] at hfitting
      exact hfitting
    · -- what is kept is what is found without the cache
      obtain ⟨cache, hreach, hkept⟩ := keeps_get lower hentry hfits
      have hcached := hres cache hreach store.entries (List.Perm.refl _)
      rw [hjoin] at hkept
      simp only [getBestCertificate, hkept] at hcached
      have hfresh := hres _ hstart store.entries (List.Perm.refl _)
      rcases @getBestCertificate_fresh C lower store _ hello (List.Perm.refl _) (fun _ => none) rfl with
        ⟨-, heq⟩ | ⟨d, cert, hd, hlook, heq⟩
      · rw [heq, ← hcached] at hfresh
        cases hfresh
      · rw [heq, ← hcached] at hfresh
        rw [← Option.some.inj hfresh]
        exact ⟨d, hd, lookup_matchedCerts (List.Perm.refl _) hlook⟩
  · intro hdecided
    -- whatever is found is a certificate of the greatest matching domain
    have hfound : ∀ cache, (calls lower store).Reachable cache → ∀ order, order.Perm store.entries →
        (∀ d, ¬ Matching store (hello.name lower) d) ∧
          (getBestCertificate lower hello order cache).1 = none ∨
        ∃ cert, Top store (hello.name lower) cert ∧
          (getBestCertificate lower hello order cache).1 = some cert := by
      intro cache hreach order hperm
      cases hkept : cache (hello.name lower) with
      | none =>
        rcases getBestCertificate_fresh lower hello hperm hkept with ⟨hnone, heq⟩ | ⟨d, cert, hd, hlook, heq⟩
        · exact .inl ⟨hnone, by rw [heq]⟩
        · exact .inr ⟨cert, ⟨d, hd, lookup_matchedCerts hperm hlook⟩, by rw [heq]⟩
      | some cert =>
        refine .inr ⟨cert, ?_, by simp only [getBestCertificate, hkept]⟩
        rcases keeps_of_reachable lower hreach hkept with htop | ⟨doms, hjoin, entry, hentry, hfits, rfl⟩
        · exact htop
        · exact hdecided.kept doms hjoin entry hentry hfits
    rcases hfound _ hstart store.entries (List.Perm.refl _) with ⟨hnone, -⟩ | ⟨cert, hcert, -⟩
    · refine ⟨none, fun cache hreach order hperm => ?_, hnone⟩
      rcases hfound cache hreach order hperm with ⟨-, heq⟩ | ⟨cert, ⟨d, hd, -⟩, -⟩
      · exact heq
      · exact absurd hd.1 (hnone d)
    · refine ⟨some cert, fun cache hreach order hperm => ?_, hdecided.closest cert hcert⟩
      rcases hfound cache hreach order hperm with ⟨hnone, -⟩ | ⟨cert', hcert', heq⟩
      · obtain ⟨d, hd, -⟩ := hcert
        exact absurd hd.1 (hnone d)
      · rw [heq, hdecided.single cert' cert hcert' hcert]

/-- Two certificates for one domain: the one that is walked last is taken. -/
theorem certificate_by_order :
    (getBestCertificate id ⟨"a.com", ""⟩ [("a.com,b.com", 1), ("a.com,c.com", 2)] fun _ => none).1 =
      some 2 ∧
    (getBestCertificate id ⟨"a.com", ""⟩ [("a.com,c.com", 2), ("a.com,b.com", 1)] fun _ => none).1 =
      some 1 := by
  decide +kernel

end Ingress.Tls
