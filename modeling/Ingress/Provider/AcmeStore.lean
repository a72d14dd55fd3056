import Ingress.Provider.Acme

/-! # Storage of ACME certificates

    `pkg/provider/acme/local_store.go`: the accounts and certificates of all resolvers are in one
    file, which is read at the first `get`.  Certificates without a value are left out then, and
    the storage is sent to the goroutine that writes the file.

    The loop over the resolvers collects certificates in one list for all of them.

    * `LocalStore.get` and the functions around it: the code.
    * `StoredData.left`: the list of a resolver, by what the loop has collected before it.
    * `get_keeps_apart`: what every resolver has after the first `get`. -/

open Function Option List

namespace Ingress.Acme

/-! ## The code -/

structure Certificate where
  domain : Domain
  certificate : List UInt8
  key : List UInt8
  deriving DecidableEq, Repr

structure CertAndStore extends Certificate where
  store : String
  deriving DecidableEq, Repr

/-- No value in the certificate or in its key. -/
def CertAndStore.isEmpty (c : CertAndStore) : Bool :=
  c.certificate.length == 0 || c.key.length == 0

/-- `StoredData`, for any type of accounts. -/
structure StoredData (A : Type) where
  account : Option A
  certificates : List CertAndStore

/-- The data of every resolver that has some. -/
abbrev Storage (A : Type) := String → Option (StoredData A)

/-- `LocalStore`, with the storages it has sent to `saveDataChan`. -/
structure LocalStore (A : Type) where
  storedData : Option (Storage A)
  sent : List (Storage A)

/-- What becomes of the file: `CheckFile`, `os.Open` and `io.ReadAll` may fail, and `CheckFile`
    may find that it has no data.  With an error of `json.Unmarshal` some of it may have been
    decoded. -/
inductive File (A E : Type) where
  | checkFile (err : E)
  | noData
  | opening (err : E)
  | readAll (err : E)
  | content (data : Storage A) (err : Option E)

variable {A E : Type}

def newLocalStore : LocalStore A := ⟨none, []⟩

/-- The variables of the loop over the resolvers: the certificates it has collected, the storage,
    and what it has sent. -/
structure Loading (A : Type) where
  certificates : List CertAndStore
  storedData : Storage A
  sent : List (Storage A)

/-- The loop over the certificates of one resolver. -/
def StoredData.kept (d : StoredData A) : List CertAndStore :=
  d.certificates.filter (!·.isEmpty)

/-- One resolver. -/
def Loading.visit (l : Loading A) (name : String) : Loading A :=
  match l.storedData name with
  | none => l
  | some d =>
    let certificates := l.certificates ++ d.kept
    if certificates.length < d.certificates.length then
      let storedData := Function.update l.storedData name (some { d with certificates })
      ⟨certificates, storedData, l.sent ++ [storedData]⟩
    else { l with certificates }

/-- The first part of `get`: the file is read, and the loop goes over the resolvers in `order`. -/
def File.load (file : File A E) (order : List String) : Except E Unit × LocalStore A :=
  match file with
  | .checkFile err => (.error err, ⟨some fun _ => none, []⟩)
  | .noData => (.ok (), ⟨some fun _ => none, []⟩)
  | .opening err => (.error err, ⟨some fun _ => none, []⟩)
  | .readAll err => (.error err, ⟨some fun _ => none, []⟩)
  | .content data (some err) => (.error err, ⟨some data, []⟩)
  | .content data none =>
    let l := order.foldl Loading.visit ⟨[], data, []⟩
    (.ok (), ⟨some l.storedData, l.sent⟩)

/-- The second part of `get`: a resolver without data gets some. -/
def LocalStore.entry (s : LocalStore A) (storedData : Storage A) (resolverName : String) :
    StoredData A × LocalStore A :=
  match storedData resolverName with
  | some d => (d, s)
  | none =>
    let storedData := Function.update storedData resolverName (some ⟨none, []⟩)
    (⟨none, []⟩, { s with storedData := some storedData })

open LocalStore

def LocalStore.get (s : LocalStore A) (file : File A E) (order : List String)
    (resolverName : String) : Except E (StoredData A) × LocalStore A :=
  match s.storedData with
  | some storedData =>
    let (d, s) := s.entry storedData resolverName
    (.ok d, s)
  | none =>
    match file.load order with
    | (.error err, loaded) => (.error err, { loaded with sent := s.sent ++ loaded.sent })
    | (.ok (), loaded) =>
      let (d, s) := entry { loaded with sent := s.sent ++ loaded.sent }
        (loaded.storedData.getD fun _ => none) resolverName
      (.ok d, s)

/-! ## The loop over the resolvers -/

/-- The certificates of the resolvers that have come so far, without the empty ones. -/
def Storage.collected (data : Storage A) (before : List String) : List CertAndStore :=
  before.flatMap fun name => ((data name).map (·.kept)).getD []

variable {data : Storage A}

open Storage

theorem Storage.collected_eq_nil_iff {pre : List String} :
    data.collected pre = [] ↔
      ∀ name ∈ pre, ∀ d, data name = some d → d.kept = [] := by
  rw [collected, flatMap_eq_nil_iff]
  refine forall₂_congr fun name _ => ?_
  cases data name <;> simp

/-- What is left to a resolver when certificates have been collected before. -/
def StoredData.left (d : StoredData A) (collected : List CertAndStore) : List CertAndStore :=
  if (collected ++ d.kept).length < d.certificates.length then collected ++ d.kept
  else d.certificates

variable {d : StoredData A}

open StoredData

/-- A resolver is left its own certificates, without the empty ones, exactly when it has none of
    these or no certificate was collected before. -/
theorem left_eq_kept_iff {collected : List CertAndStore} :
    d.left collected = d.kept ↔
      ((∃ c ∈ d.certificates, c.isEmpty = true) → collected = []) := by
  have hle : d.kept.length ≤ d.certificates.length := length_filter_le _ _
  have hempty : (∃ c ∈ d.certificates, c.isEmpty = true) ↔
      d.kept.length < d.certificates.length := by
    rw [kept, length_filter_lt_length_iff_exists]
    simp
  have hfull : d.certificates = d.kept ↔ ¬ d.kept.length < d.certificates.length := by
    constructor
    · intro h
      rw [← h]
      exact Nat.lt_irrefl _
    · intro h
      exact ((filter_sublist).eq_of_length (by unfold kept at *; omega)).symm
  rw [hempty, left]
  simp only [length_append]
  split
  · next hlt =>
    constructor
    · intro h _
      exact append_left_eq_self.mp h
    · intro h
      rw [h (by omega), nil_append]
  · next hge =>
    rw [hfull]
    constructor
    · intro h hlt
      exact absurd hlt h
    · intro h hlt
      rw [h hlt, length_nil, Nat.zero_add] at hge
      exact hge hlt

/-- One round of the loop.  What was sent last is the storage. -/
theorem Loading.visit_spec {l : Loading A} {name : String} (hd : l.storedData name = some d) :
    (l.visit name).certificates = l.certificates ++ d.kept ∧
    (l.visit name).storedData =
      update l.storedData name (some { d with certificates := d.left l.certificates }) ∧
    ((∀ m, l.sent.getLast? = some m → m = l.storedData) →
      ∀ m, (l.visit name).sent.getLast? = some m → m = (l.visit name).storedData) := by
  simp only [visit, hd, left]
  split
  · refine ⟨rfl, rfl, fun _ m hm => ?_⟩
    rw [getLast?_concat] at hm
    exact (some.inj hm).symm
  · refine ⟨rfl, ?_, id⟩
    rw [← hd, update_eq_self]

/-- The loop has come past the resolvers `before`. -/
structure Past (data : Storage A) (before : List String) (l : Loading A) : Prop where
  certificates : l.certificates = data.collected before
  ahead : ∀ name, name ∉ before → l.storedData name = data name
  past : ∀ earlier name later, before = earlier ++ name :: later →
    l.storedData name =
      (data name).map fun d => { d with certificates := d.left (data.collected earlier) }
  sent : ∀ m, l.sent.getLast? = some m → m = l.storedData

theorem past_nil (data : Storage A) : Past data [] ⟨[], data, []⟩ where
  certificates := rfl
  ahead := fun _ _ => rfl
  past := by simp
  sent := by simp

/-- The place of a resolver in the loop, when one more has come. -/
theorem split_concat {pre earlier later : List String} {name r : String} (hnew : name ∉ pre)
    (h : pre ++ [name] = earlier ++ r :: later) :
    (r = name ∧ earlier = pre) ∨ r ≠ name ∧ ∃ later', pre = earlier ++ r :: later' := by
  rcases eq_nil_or_concat later with rfl | ⟨later', last, rfl⟩
  · obtain ⟨rfl, hr⟩ := append_inj' h rfl
    cases hr
    exact .inl ⟨rfl, rfl⟩
  · rw [concat_eq_append, ← cons_append, ← append_assoc] at h
    obtain ⟨rfl, _⟩ := append_inj' h rfl
    refine .inr ⟨?_, later', rfl⟩
    rintro rfl
    exact hnew (by simp)

/-- A resolver is visited for the first time. -/
theorem Past.visit {pre : List String} {l : Loading A} {name : String}
    (hl : Past data pre l) (hnew : name ∉ pre) (hd : data name = some d) :
    Past data (pre ++ [name]) (l.visit name) := by
  obtain ⟨hcerts, hstored, hsent⟩ := Loading.visit_spec ((hl.ahead name hnew).trans hd)
  constructor
  case certificates => simp [hcerts, hl.certificates, collected, hd]
  case ahead =>
    intro r hr
    rw [mem_append, mem_singleton, not_or] at hr
    rw [hstored, update_of_ne hr.2]
    exact hl.ahead r hr.1
  case past =>
    intro earlier r later heq
    rcases split_concat hnew heq with ⟨rfl, rfl⟩ | ⟨hr, later', heq⟩
    · rw [hstored, update_self, hd, hl.certificates]
      rfl
    · rw [hstored, update_of_ne hr]
      exact hl.past earlier r later' heq
  case sent => exact hsent hl.sent

/-- The whole loop. -/
theorem past_foldl {order : List String} (hord : order.Nodup)
    (hdata : ∀ name ∈ order, (data name).isSome) :
    Past data order (order.foldl Loading.visit ⟨[], data, []⟩) := by
  induction order using reverseRecOn with
  | nil => exact past_nil data
  | append_singleton pre name ih =>
    rw [nodup_append_comm, singleton_append, nodup_cons] at hord
    rw [foldl_append]
    obtain ⟨d, hd⟩ := isSome_iff_exists.mp (hdata name (by simp))
    exact (ih hord.2 fun r hr => hdata r (mem_append_left _ hr)).visit hord.1 hd

/-! ## The first `get` -/

/-- `order` goes through a storage. -/
structure Enumerates (order : List String) (data : Storage A) : Prop where
  nodup : order.Nodup
  mem_iff : ∀ name, name ∈ order ↔ (data name).isSome

/-- `entry` changes nothing for the resolvers that have data. -/
theorem LocalStore.entry_spec (s : LocalStore A) {data : Storage A}
    (hs : s.storedData = some data) (resolver : String) :
    ∃ stored, (s.entry data resolver).2 = ⟨some stored, s.sent⟩ ∧
      stored resolver = some (s.entry data resolver).1 ∧
      ∀ r, r ≠ resolver ∨ (data r).isSome → stored r = data r := by
  unfold entry
  split
  · next d hd => exact ⟨data, by rw [← hs], hd, fun _ _ => rfl⟩
  · next hnone =>
    refine ⟨_, rfl, update_self .., fun r hr => ?_⟩
    rcases hr with hr | hr
    · exact update_of_ne hr _ _
    · refine update_of_ne ?_ _ _
      rintro rfl
      rw [hnone] at hr
      cases hr

/-- **Resolvers are kept apart**.  After the first `get` every resolver of the file has its
    account, and has its own certificates without the empty ones exactly when no resolver with an
    empty certificate comes, in the loop, after one with a certificate that is not empty.  The
    storage that was sent last has these data. -/
theorem get_keeps_apart (data : Storage A) (order : List String) (h : Enumerates order data)
    (resolverName : String) :
    ∃ d stored sent,
      newLocalStore.get (.content data none : File A E) order resolverName =
        (.ok d, ⟨some stored, sent⟩) ∧
      stored resolverName = some d ∧
      (∀ name, (stored name).isSome ↔ name = resolverName ∨ (data name).isSome) ∧
      (∀ name, (data name).isSome →
        (stored name).map (·.account) = (data name).map (·.account)) ∧
      ((∀ name, (data name).isSome →
          (stored name).map (·.certificates) = (data name).map (·.kept)) ↔
        ∀ earlier name later, order = earlier ++ name :: later →
          (∃ d, data name = some d ∧ ∃ c ∈ d.certificates, c.isEmpty = true) →
          ∀ name' ∈ earlier, ∀ d', data name' = some d' → d'.kept = []) ∧
      ∀ m, sent.getLast? = some m → ∀ name, (data name).isSome → m name = stored name := by
  have hpast := past_foldl h.nodup fun name hname => (h.mem_iff name).mp hname
  obtain ⟨stored, hres, hown, hsame⟩ := entry_spec
    ⟨some (order.foldl Loading.visit ⟨[], data, []⟩).storedData,
      (order.foldl Loading.visit ⟨[], data, []⟩).sent⟩ rfl resolverName
  -- the data of a resolver of the file, by its place in the loop
  have hplace : ∀ earlier name later d, order = earlier ++ name :: later → data name = some d →
      stored name = some { d with certificates := d.left (data.collected earlier) } := by
    intro earlier name later d hord hd
    have hname := hpast.past earlier name later hord
    rw [hd, map_some] at hname
    rw [hsame name (.inr (by rw [hname]; rfl)), hname]
  have hfile : ∀ name, (data name).isSome →
      ∃ d earlier later, data name = some d ∧ order = earlier ++ name :: later := by
    intro name hname
    obtain ⟨d, hd⟩ := isSome_iff_exists.mp hname
    obtain ⟨earlier, later, hord⟩ := append_of_mem ((h.mem_iff name).mpr hname)
    exact ⟨d, earlier, later, hd, hord⟩
  refine ⟨_, stored, _, Prod.ext rfl hres, hown, ?_, ?_, ?_, ?_⟩
  · intro name
    by_cases hsome : (data name).isSome
    · obtain ⟨d, earlier, later, hd, hord⟩ := hfile name hsome
      simp [hplace earlier name later d hord hd, hd]
    · have hnot : name ∉ order := mt (h.mem_iff name).mp hsome
      by_cases hname : name = resolverName
      · simp [hname, hown]
      · simp [hname, hsame name (.inl hname), hpast.ahead name hnot]
  · intro name hname
    obtain ⟨d, earlier, later, hd, hord⟩ := hfile name hname
    rw [hplace earlier name later d hord hd, hd]
    rfl
  · constructor
    · intro hall earlier name later hord
      rintro ⟨d, hd, hempty⟩
      have hname := hall name (by rw [hd]; rfl)
      rw [hplace earlier name later d hord hd, hd] at hname
      exact collected_eq_nil_iff.mp
        (left_eq_kept_iff.mp (some.inj hname) hempty)
    · intro hall name hname
      obtain ⟨d, earlier, later, hd, hord⟩ := hfile name hname
      rw [hplace earlier name later d hord hd, hd]
      refine congrArg some (left_eq_kept_iff.mpr fun hempty => ?_)
      exact collected_eq_nil_iff.mpr (hall earlier name later hord ⟨d, hd, hempty⟩)
  · intro m hm name hname
    obtain ⟨d, earlier, later, hd, hord⟩ := hfile name hname
    have hin := hpast.past earlier name later hord
    rw [hpast.sent m hm, hsame name (.inr (by rw [hin, hd]; rfl))]

/-- A certificate with a value, and one without. -/
def certA : CertAndStore := ⟨⟨⟨"a.example", []⟩, [1], [1]⟩, "default"⟩

def certEmpty : CertAndStore := ⟨⟨⟨"b.example", []⟩, [], []⟩, "default"⟩

/-- A file with one certificate, and with two resolvers. -/
def storageA : Storage Unit :=
  fun name => if name = "A" then some ⟨none, [certEmpty, certA]⟩ else none

def storageAB : Storage Unit := fun name =>
  if name = "A" then some ⟨none, [certA]⟩
  else if name = "B" then some ⟨none, [certEmpty, certEmpty]⟩ else none

theorem enumerates_storageA : Enumerates ["A"] storageA where
  nodup := by decide
  mem_iff := by
    intro name
    by_cases h : name = "A" <;> simp [storageA, h]

theorem enumerates_storageAB : Enumerates ["A", "B"] storageAB where
  nodup := by decide
  mem_iff := by
    intro name
    by_cases hA : name = "A" <;> by_cases hB : name = "B" <;> simp [storageAB, hA, hB]

theorem get_keeps_apart_storageA :
    Enumerates ["A"] storageA ∧ ∃ d stored sent,
      newLocalStore.get (.content storageA none : File Unit String) ["A"] "A" =
        (.ok d, ⟨some stored, sent⟩) ∧ stored "A" = some d := by
  refine ⟨enumerates_storageA, ?_⟩
  obtain ⟨d, stored, sent, hget, hown, _⟩ :=
    get_keeps_apart (E := String) storageA ["A"] enumerates_storageA "A"
  exact ⟨d, stored, sent, hget, hown⟩

/-- The resolver `B` has two empty certificates and gets the one of `A`. -/
theorem get_mixes_resolvers : ∃ d stored sent, Enumerates ["A", "B"] storageAB ∧
    newLocalStore.get (.content storageAB none : File Unit String) ["A", "B"] "B" =
      (.ok d, ⟨some stored, sent⟩) ∧
    d.certificates = [certA] ∧
    (storageAB "B").map (·.kept) = some [] ∧ (storageAB "A").map (·.kept) = some [certA] :=
  ⟨_, _, _, enumerates_storageAB, rfl, by decide, by decide, by decide⟩

end Ingress.Acme
