import Ingress.Middleware.ForwardedHeaders

/-! # Selection of the client's address

    `pkg/ip/strategy.go`: the address of a client is chosen from the `X-Forwarded-For` field, by
    its place counted from the right, or as the last one outside a pool of addresses.

    `rewrite` of the forwarded headers has joined the lines of the field before.

    * `DepthStrategy.getIP`, `PoolStrategy.getIP`: the code.
    * `chain`: the addresses of all lines.
    * `elements_rewrite`: joining and splitting the lines leaves their addresses.
    * `getIP_of_chain`: both strategies choose from the chain. -/

open List Ingress.Http Text

namespace Ingress.ForwardedHeaders

/-! ## The code -/

/-- `strings.Split` of the field at the commas. -/
def xffs (req : Request) : List (List Char) :=
  (req.header.get "X-Forwarded-For").toList.splitOn ','

/-- `strings.TrimSpace` of a part of the field. -/
def trimSpace (part : List Char) : String :=
  String.ofList (trim isSpace part)

/-- `DepthStrategy`.  `ipv6Subnet` is `getIPv6SubnetIP` with the subnet, if there is one. -/
structure DepthStrategy where
  depth : ℤ
  ipv6Subnet : Option (String → String)

/-- `GetIP`; there is no result when the index is out of range. -/
def DepthStrategy.getIP (s : DepthStrategy) (req : Request) : Option String :=
  let parts := xffs req
  if (parts.length : ℤ) < s.depth then some ""
  else (parts[(parts.length - s.depth).toNat]?).map fun part =>
    match s.ipv6Subnet with
    | some subnetIP => subnetIP (trimSpace part)
    | none => trimSpace part

/-- `PoolStrategy`.  The checker says which addresses are in the pool; it may be missing. -/
structure PoolStrategy where
  checker : Option (String → Bool)

/-- The loop of `GetIP`, over the parts from right to left. -/
def firstOutside (contains : String → Bool) : List (List Char) → String
  | [] => ""
  | part :: rest =>
    let xffTrimmed := trimSpace part
    if xffTrimmed.isEmpty then firstOutside contains rest
    else if contains xffTrimmed then firstOutside contains rest
    else xffTrimmed

def PoolStrategy.getIP (s : PoolStrategy) (req : Request) : String :=
  match s.checker with
  | none => ""
  | some contains => firstOutside contains (xffs req).reverse

/-! ## Joined lines -/

/-- The addresses of the lines of the field, in order. -/
def chain (req : Request) : List String :=
  (req.header.values "X-Forwarded-For").flatMap fun line => (line.toList.splitOn ',').map trimSpace

/-- A space in front of an address is trimmed. -/
theorem trimSpace_space (part : List Char) : trimSpace (' ' :: part) = trimSpace part := by
  have hspace : isSpace ' ' = true := by decide
  rw [trimSpace, trim, dropWhile_cons_of_pos hspace]
  rfl

theorem map_trimSpace_space (s : List Char) :
    ((' ' :: s).splitOn ',').map trimSpace = (s.splitOn ',').map trimSpace := by
  rw [splitOn, splitOnP_cons_eq_if_modifyHead, if_neg (by decide)]
  show (modifyHead (' ' :: ·) (s.splitOn ',')).map trimSpace = _
  cases s.splitOn ',' with
  | nil => rfl
  | cons part parts =>
    rw [modifyHead_cons, map_cons, map_cons, trimSpace_space]

/-- **What is joined can be split**: the addresses are those of the lines. -/
theorem elements_join {lines : List String} (hlines : lines ≠ []) :
    ((", ".intercalate lines).toList.splitOn ',').map trimSpace =
      lines.flatMap fun line => (line.toList.splitOn ',').map trimSpace := by
  induction lines with
  | nil => exact absurd rfl hlines
  | cons line lines ih =>
    cases lines with
    | nil => simp
    | cons line' lines =>
      have hjoin : (", ".intercalate (line :: line' :: lines)).toList =
          line.toList ++ ',' :: ' ' :: (", ".intercalate (line' :: lines)).toList := by
        simp
      rw [hjoin, splitOn_append_cons_self, map_append, map_trimSpace_space, ih (cons_ne_nil _ _)]
      rfl

/-! ## The field after `rewrite` -/

open HeaderMap

theorem lookup_setDefault {key key' : String} (hne : key ≠ key') (req : Request) (value : String) :
    (setDefault req key' value).header.lookup key = req.header.lookup key := by
  unfold setDefault
  split
  · exact lookup_set_ne hne value
  · rfl

/-- The other parts of `rewrite` leave `X-Forwarded-For`. -/
theorem get_rewrite (x : XForwarded) (r : Request) :
    (rewrite x r).header.get "X-Forwarded-For" = (rewriteFor r).header.get "X-Forwarded-For" := by
  have hreal : ∀ req, (rewriteRealIP req).header.lookup "X-Forwarded-For" =
      req.header.lookup "X-Forwarded-For" := by
    intro req
    unfold rewriteRealIP
    split
    · exact lookup_setDefault (by decide) req _
    · rfl
  have hhost : ∀ req, (rewriteHost req).header.lookup "X-Forwarded-For" =
      req.header.lookup "X-Forwarded-For" := by
    intro req
    unfold rewriteHost
    split
    · rfl
    · exact lookup_setDefault (by decide) req _
  have hserver : ∀ req, (rewriteServer x req).header.lookup "X-Forwarded-For" =
      req.header.lookup "X-Forwarded-For" := by
    intro req
    unfold rewriteServer
    split
    · rfl
    · exact lookup_set_ne (by decide) _
  -- joining the lines depends on the lines only
  have hfor : ∀ req req',
      req.header.lookup "X-Forwarded-For" = req'.header.lookup "X-Forwarded-For" →
      (rewriteFor req).header.get "X-Forwarded-For" =
        (rewriteFor req').header.get "X-Forwarded-For" := by
    intro req req' h
    have hvals : req.header.values "X-Forwarded-For" = req'.header.values "X-Forwarded-For" := by
      rw [values, values, h]
    unfold rewriteFor
    rw [hvals]
    dsimp only
    split
    · exact get_congr h
    · rw [get_set, get_set]
  unfold rewrite
  rw [get_congr (hserver _)]
  apply hfor
  rw [hhost, lookup_setDefault (by decide), lookup_setDefault (by decide), hreal]

/-- The trimmed parts of the field after `rewrite`: the chain, or an empty part when there is no
    line. -/
theorem elements_rewrite (x : XForwarded) (r : Request) :
    (xffs (rewrite x r)).map trimSpace = if chain r = [] then [""] else chain r := by
  rw [xffs, get_rewrite]
  cases hvals : r.header.values "X-Forwarded-For" with
  | nil =>
    have hchain : chain r = [] := by rw [chain, hvals]; rfl
    rw [if_pos hchain]
    simp only [rewriteFor, hvals, HeaderMap.get, isEmpty_nil, if_true]
    rfl
  | cons line lines =>
    have hget : (rewriteFor r).header.get "X-Forwarded-For" = ", ".intercalate (line :: lines) := by
      simp only [rewriteFor, hvals]
      exact get_set ..
    have hchain : ((", ".intercalate (line :: lines)).toList.splitOn ',').map trimSpace = chain r := by
      rw [elements_join (cons_ne_nil _ _), chain, hvals]
    rw [hget, hchain, if_neg]
    intro hnil
    rw [hnil] at hchain
    exact splitOn_ne_nil _ _ (map_eq_nil_iff.mp hchain)

/-! ## What the strategies choose -/

/-- The address is not empty, and outside the pool. -/
def outside (contains : String → Bool) (address : String) : Bool :=
  !address.isEmpty && !contains address

theorem firstOutside_eq (contains : String → Bool) (parts : List (List Char)) :
    firstOutside contains parts =
      ((parts.map trimSpace).find? (outside contains)).getD "" := by
  induction parts with
  | nil => rfl
  | cons part parts ih =>
    rw [firstOutside, map_cons, find?_cons]
    by_cases hempty : (trimSpace part).isEmpty = true
    · simp [outside, hempty, ih]
    · by_cases hin : contains (trimSpace part) = true
      · simp [outside, hin, ih]
      · simp [outside, hempty, hin]

/-- The address at a depth, counted from the right. -/
def atDepth (d : ℕ) (addresses : List String) : String :=
  addresses.reverse[d - 1]?.getD ""

/-- The last address outside the pool. -/
def lastOutside (contains : String → Bool) (addresses : List String) : String :=
  (addresses.reverse.find? (outside contains)).getD ""

open DepthStrategy

theorem getIP_depth_elements (req : Request) {d : ℕ} (hd : 1 ≤ d) :
    getIP ⟨d, none⟩ req = some (atDepth d ((xffs req).map trimSpace)) := by
  unfold getIP atDepth
  dsimp only
  split
  · next hlt =>
    rw [getElem?_eq_none]
    · rfl
    · rw [length_reverse, length_map]
      omega
  · next hge =>
    have hindex : ((xffs req).length - (d : ℤ)).toNat = (xffs req).length - 1 - (d - 1) := by omega
    rw [getElem?_reverse (by rw [length_map]; omega), length_map, getElem?_map, hindex]
    have hlt : (xffs req).length - 1 - (d - 1) < (xffs req).length := by omega
    rw [getElem?_eq_getElem hlt]
    rfl

theorem getIP_depth (x : XForwarded) (r : Request) {d : ℕ} (hd : 1 ≤ d) :
    getIP ⟨d, none⟩ (rewrite x r) = some (atDepth d (chain r)) := by
  rw [getIP_depth_elements _ hd, elements_rewrite]
  split
  · next hchain =>
    rw [hchain]
    cases hd' : d - 1 with
    | zero => simp [atDepth, hd']
    | succ n => simp [atDepth, hd']
  · rfl

open PoolStrategy

theorem getIP_pool (x : XForwarded) (r : Request) (contains : String → Bool) :
    getIP ⟨some contains⟩ (rewrite x r) = lastOutside contains (chain r) := by
  show firstOutside contains (xffs (rewrite x r)).reverse = _
  rw [firstOutside_eq, map_reverse, elements_rewrite]
  split
  · next hchain =>
    rw [hchain]
    rfl
  · rfl

/-- The address at a depth is among as many addresses on the right. -/
theorem atDepth_append {d : ℕ} (hd : 1 ≤ d) (left : List String) {right : List String}
    (hright : d ≤ right.length) : atDepth d (left ++ right) = atDepth d right := by
  unfold atDepth
  rw [reverse_append, getElem?_append_left]
  rw [length_reverse]
  omega

/-- The address that is chosen depends on no address on its left. -/
theorem lastOutside_append {contains : String → Bool} {left right : List String} {e : String}
    (he : e ≠ "") (h : lastOutside contains (left ++ e :: right) = e) (left' : List String) :
    lastOutside contains (left' ++ e :: right) = e := by
  have hreverse : ∀ left, (left ++ e :: right).reverse = right.reverse ++ e :: left.reverse := by
    intro left
    simp
  unfold lastOutside at h ⊢
  rw [hreverse left, find?_append] at h
  rw [hreverse left', find?_append]
  cases hfound : right.reverse.find? (outside contains) with
  | some e' =>
    rw [hfound] at h
    exact h
  | none =>
    rw [hfound, Option.none_or] at h
    -- a chosen address is outside the pool
    have hout : outside contains e = true := by
      cases hrest : (e :: left.reverse).find? (outside contains) with
      | none =>
        rw [hrest] at h
        exact absurd h.symm he
      | some e' =>
        rw [hrest] at h
        have heq : e' = e := h
        exact heq ▸ find?_some hrest
    rw [find?_cons_of_pos hout]
    rfl

/-- **The address of the client is chosen from the chain** of the addresses of all lines: at a
    depth, or as the last one outside the pool.  How the chain is split into lines, and what
    stands on the left of the address that is chosen, has no influence. -/
theorem getIP_of_chain (x : XForwarded) (r : Request) :
    (∀ d : ℕ, 1 ≤ d →
      getIP ⟨d, none⟩ (rewrite x r) = some (((chain r).reverse[d - 1]?).getD "")) ∧
    (∀ contains : String → Bool, getIP ⟨some contains⟩ (rewrite x r) =
      ((chain r).reverse.find? fun e => !e.isEmpty && !contains e).getD "") ∧
    (∀ (x' : XForwarded) (r' : Request), chain r' = chain r →
      (∀ d : ℕ, 1 ≤ d → getIP ⟨d, none⟩ (rewrite x' r') =
        getIP ⟨d, none⟩ (rewrite x r)) ∧
      ∀ contains : String → Bool, getIP ⟨some contains⟩ (rewrite x' r') =
        getIP ⟨some contains⟩ (rewrite x r)) ∧
    (∀ (x' : XForwarded) (r' : Request) (left left' right : List String),
      chain r = left ++ right → chain r' = left' ++ right →
      ∀ d : ℕ, 1 ≤ d → d ≤ right.length → getIP ⟨d, none⟩ (rewrite x' r') =
        getIP ⟨d, none⟩ (rewrite x r)) ∧
    ∀ (x' : XForwarded) (r' : Request) (left left' right : List String) (e : String),
      chain r = left ++ e :: right → chain r' = left' ++ e :: right → e ≠ "" →
      ∀ contains : String → Bool, getIP ⟨some contains⟩ (rewrite x r) = e →
        getIP ⟨some contains⟩ (rewrite x' r') = e := by
  refine ⟨fun _ => getIP_depth x r, (getIP_pool x r), ?_, ?_, ?_⟩
  · intro x' r' hchain
    constructor
    · intro d hd
      rw [getIP_depth x' r' hd, getIP_depth x r hd, hchain]
    · intro contains
      rw [getIP_pool, getIP_pool, hchain]
  · intro x' r' left left' right hr hr' d hd hright
    rw [getIP_depth x' r' hd, getIP_depth x r hd, hr, hr', atDepth_append hd left hright,
      atDepth_append hd left' hright]
  · intro x' r' left left' right e hr hr' he contains hchosen
    rw [getIP_pool, hr] at hchosen
    rw [getIP_pool, hr']
    exact lastOutside_append he hchosen left'

end Ingress.ForwardedHeaders
