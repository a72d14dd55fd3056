import Ingress.Server.RouterTree

/-! # The Muxers of the Child Routers

    The handlers of a router tree are kept once they are built, and a router whose handler or
    whose rule fails is disabled on the way.  Neither shows in what is built: the handler of a
    router is put together from those of its children.

    * `handlerOf`: the handlers, without what is kept.
    * `Building`: what is kept while the handlers are built.
    * `buildRouterHandler_eq`: the code builds the handlers of `handlerOf`.
    * `child_served_iff`: when a child is in the muxer of its parent. -/

open Option List

namespace Ingress.RouterTree

open Relation

variable {H : Type} (B : Builder H) (t : Routers)

/-! ## The handlers -/

/-- The route to a child, when it has one. -/
def childRoute (f : String → Except String H) (childName : String) : Option (Route H) :=
  (t.lookup childName).bind fun r =>
    if r.err = [] ∧ B.parse r.ruleSyntax r.rule = none then (f childName).toOption.map (r.route childName)
    else none

/-- A muxer has a route. -/
def nonEmpty (total : ℕ) (routes : List (Route H)) : Except String (List (Route H)) :=
  if routes.length = 0 then
    .error ("no child routers could be added to muxer (" ++ toString total ++ " skipped)")
  else .ok routes

/-- The handler of a router, from those of its children. -/
def assemble (f : String → Except String H) (name : String) (router : RouterInfo) : Except String H :=
  match B.tlsError name router.toRouter.setPriority with
  | some e => .error ("building router handler: " ++ e)
  | none =>
    if !router.childRefs.isEmpty then
      (((nonEmpty router.childRefs.length (router.childRefs.filterMap (childRoute B t f))).map
        B.muxer).mapError ("building child routers muxer: " ++ ·)).bind
          (B.chain name router.toRouter.setPriority)
    else if !router.service.isEmpty then
      (B.buildService name router.toRouter.setPriority).bind (B.chain name router.toRouter.setPriority)
    else .error "router must have either a service or child routers"

/-- The handler of a router. -/
def handlerOf : ℕ → String → Except String H
  | 0, _ => .error ""
  | fuel + 1, name =>
    match t.lookup name with
    | none => .error ""
    | some router => assemble B t (handlerOf fuel) name router

variable {B t} {f f' : String → Except String H}

theorem childRoute_congr {c : String} (h : f c = f' c) : childRoute B t f c = childRoute B t f' c := by
  unfold childRoute
  rw [h]

variable {name : String} {r : RouterInfo}

theorem assemble_congr (h : ∀ c ∈ r.childRefs, f c = f' c) :
    assemble B t f name r = assemble B t f' name r := by
  have hroutes : r.childRefs.filterMap (childRoute B t f) = r.childRefs.filterMap (childRoute B t f') :=
    filterMap_congr fun c hc => childRoute_congr (h c hc)
  unfold assemble
  rw [hroutes]

open Router

@[simp] theorem setPriority_setPriority (r : Router) : r.setPriority.setPriority = r.setPriority := by
  unfold setPriority
  by_cases hzero : r.priority = 0
  · rw [if_pos hzero]
    split <;> rfl
  · rw [if_neg hzero, if_neg hzero]

theorem setPriority_service (r : Router) : r.setPriority.service = r.service := by
  unfold setPriority
  split <;> rfl

theorem setPriority_rule (r : Router) :
    r.setPriority.rule = r.rule ∧ r.setPriority.ruleSyntax = r.ruleSyntax := by
  unfold setPriority
  split <;> exact ⟨rfl, rfl⟩

/-- The route has the rule and the priority, whether it was set before or not. -/
theorem route_setPriority (r : Router) (name : String) (h : H) :
    r.setPriority.route name h = r.route name h := by
  obtain ⟨hrule, hsyntax⟩ := setPriority_rule r
  unfold route
  rw [setPriority_setPriority, hrule, hsyntax]

section Parsed

variable {routers : Routers} {A : String → List String} {d : DepthFirst.State String}
  (hparsed : Parsed routers t A d)
include hparsed

/-- A child is finished before its parent. -/
theorem Parsed.child_before {name c : String} (hname : name ∈ d.finished)
    (hr : t.lookup name = some r) (hc : c ∈ r.childRefs) :
    c ∈ d.finished ∧ d.finished.idxOf c < d.finished.idxOf name := by
  obtain ⟨⟨-, -, hlt⟩, hfin⟩ := hparsed.kept_of_child hname ⟨r, hr, hc⟩
  exact ⟨hfin, hlt⟩

theorem handlerOf_stable {k k' : ℕ} (hname : name ∈ d.finished)
    (hk : d.finished.idxOf name < k) (hk' : d.finished.idxOf name < k') :
    handlerOf B t k name = handlerOf B t k' name := by
  induction k generalizing k' name with
  | zero => omega
  | succ k ih =>
    match k', hk' with
    | k' + 1, hk' =>
      unfold handlerOf
      cases hr : t.lookup name with
      | none => rfl
      | some r =>
        refine assemble_congr fun c hc => ?_
        obtain ⟨hfin, hlt⟩ := hparsed.child_before hname hr hc
        exact ih hfin (by omega) (by omega)

/-- The handlers are put together from those of the children. -/
theorem handlerOf_eq {fuel : ℕ} (hname : name ∈ d.finished)
    (hfuel : d.finished.idxOf name < fuel) (hr : t.lookup name = some r) :
    handlerOf B t fuel name = assemble B t (handlerOf B t fuel) name r := by
  rw [handlerOf_stable hparsed hname hfuel (show _ < fuel + 1 by omega), handlerOf, hr]

end Parsed

/-! ## Building them -/

/-- What is kept while the handlers `f` are built: the handlers, and the routers, with an error
    for those that cannot be added to a muxer. -/
structure Building (B : Builder H) (t : Routers) (f : String → Except String H) (s : BuildState H) :
    Prop where
  handler : ∀ n h, s.routerHandlers n = some h → f n = .ok h
  exist : ∀ n, (s.routers.lookup n).isSome = (t.lookup n).isSome
  router : ∀ n r, s.routers.lookup n = some r → ∃ r₀, t.lookup n = some r₀ ∧
    r.toRouter.setPriority = r₀.toRouter.setPriority ∧ r.childRefs = r₀.childRefs ∧
    (r₀.err ≠ [] → r.err ≠ []) ∧ (r.err ≠ [] → childRoute B t f n = none)

variable {s : BuildState H}

theorem building_start : Building B t f ⟨t, fun _ => none⟩ where
  handler := by
    intro n h hh
    cases hh
  exist := fun _ => rfl
  router := by
    intro n r hr
    refine ⟨r, hr, rfl, rfl, fun h => h, fun herr => ?_⟩
    rw [childRoute, show t.lookup n = some r from hr, bind_some, if_neg (fun h => herr h.1)]

/-- A change of one router. -/
theorem Building.modify (hs : Building B t f s) (name : String) {change : RouterInfo → RouterInfo}
    (hrouter : ∀ r, (change r).toRouter.setPriority = r.toRouter.setPriority)
    (hchildren : ∀ r, (change r).childRefs = r.childRefs)
    (herr : ∀ r, r.err ≠ [] → (change r).err ≠ [])
    (hfail : ∀ r, (change r).err ≠ [] → r.err ≠ [] ∨ childRoute B t f name = none) :
    Building B t f { s with routers := modify name change s.routers } where
  handler := hs.handler
  exist := by
    intro n
    rw [isSome_lookup_modify]
    exact hs.exist n
  router := by
    intro n r hr
    replace hr : (RouterTree.modify name change s.routers).lookup n = some r := hr
    rw [lookup_modify] at hr
    split at hr
    · next hn =>
      obtain ⟨r₁, hr₁, rfl⟩ := map_eq_some_iff.mp hr
      obtain ⟨r₀, hr₀, hsame, hkids, hkept, hnone⟩ := hs.router n r₁ hr₁
      refine ⟨r₀, hr₀, (hrouter r₁).trans hsame, (hchildren r₁).trans hkids,
        fun h => herr r₁ (hkept h), fun h => ?_⟩
      rcases hfail r₁ h with hold | hnew
      · exact hnone hold
      · rw [hn]
        exact hnew
    · exact hs.router n r hr

theorem Building.setPriority (hs : Building B t f s) (name : String) :
    Building B t f { s with routers := RouterTree.modify name RouterInfo.setPriority s.routers } :=
  hs.modify name (fun r => setPriority_setPriority r.toRouter) (fun _ => rfl) (fun _ h => h)
    (fun _ h => .inl h)

theorem Building.addError (hs : Building B t f s) (e : String)
    (hnone : childRoute B t f name = none) :
    Building B t f { s with routers := RouterTree.modify name (·.addError e true) s.routers } := by
  refine hs.modify name (fun r => by rw [addError_toRouter]) (fun r => addError_childRefs r e true)
    (fun r herr hempty => ?_) (fun _ _ => .inr hnone)
  obtain ⟨e', he'⟩ := exists_mem_of_ne_nil _ herr
  have hmem := (mem_addError r e true e').mpr (.inl he')
  rw [hempty] at hmem
  cases hmem

/-- **The loop over the children** adds those that have a route. -/
theorem addChildren_eq (quote : String → String)
    {build : String → RouterInfo → BuildState H → Option (Except String H × BuildState H)}
    (kids : List String) (total : ℕ) (routes : List (Route H))
    (hexist : ∀ c ∈ kids, (t.lookup c).isSome = true)
    (hbuild : ∀ c ∈ kids, ∀ r r₀ s, t.lookup c = some r₀ → r.toRouter = r₀.toRouter.setPriority →
      r.childRefs = r₀.childRefs → Building B t f s →
      ∃ s', build c r s = some (f c, s') ∧ Building B t f s')
    (hs : Building B t f s) :
    ∃ s', addChildren quote B build total kids routes routes.length s =
      some (nonEmpty total (routes ++ kids.filterMap (childRoute B t f)), s') ∧
      Building B t f s' := by
  induction kids generalizing routes s with
  | nil =>
    refine ⟨s, ?_, hs⟩
    rw [addChildren, filterMap_nil, append_nil, nonEmpty]
    split <;> rfl
  | cons c kids ih =>
    replace ih := fun routes s => @ih s routes
      (fun c' hc' => hexist c' (mem_cons_of_mem c hc'))
      (fun c' hc' => hbuild c' (mem_cons_of_mem c hc'))
    -- a child without a route leaves the routes as they are
    have hskip : ∀ s, childRoute B t f c = none → Building B t f s →
        ∃ s', addChildren quote B build total kids routes routes.length s =
          some (nonEmpty total (routes ++ (c :: kids).filterMap (childRoute B t f)), s') ∧
          Building B t f s' := by
      intro s hnone hs
      rw [filterMap_cons_none hnone]
      exact ih routes s hs
    rw [addChildren]
    have hsome := hexist c (.head _)
    rw [← hs.exist c] at hsome
    obtain ⟨r, hr⟩ := isSome_iff_exists.mp hsome
    obtain ⟨r₀, hr₀, hsame, hkids, hkept, hnone⟩ := hs.router c r hr
    rw [hr]
    dsimp only
    by_cases herr : r.err = []
    · have hclean : r₀.err = [] := not_not.mp fun h => hkept h herr
      rw [if_neg (by simp [herr])]
      obtain ⟨s', hout, hs'⟩ := hbuild c (.head _) r.setPriority r₀ _ hr₀ hsame hkids
        (hs.setPriority c)
      rw [hout]
      have hroute : childRoute B t f c =
          if B.parse r₀.ruleSyntax r₀.rule = none then (f c).toOption.map (r₀.route c) else none := by
        simp [childRoute, hr₀, hclean]
      cases hf : f c with
      | error e =>
        have hfail : childRoute B t f c = none := by
          rw [hroute, hf]
          simp [Except.toOption]
        exact hskip _ hfail (hs'.addError e hfail)
      | ok handler =>
        have heq : r.route c handler = r₀.route c handler := by
          rw [← route_setPriority, hsame, route_setPriority]
        dsimp only
        rw [heq, addRoute]
        cases hparse : B.parse r₀.ruleSyntax r₀.rule with
        | some e =>
          rw [show B.parse (r₀.route c handler).ruleSyntax (r₀.route c handler).rule = _ from hparse]
          have hfail : childRoute B t f c = none := by
            rw [hroute, if_neg (by simp [hparse])]
          exact hskip _ hfail (hs'.addError _ hfail)
        | none =>
          rw [show B.parse (r₀.route c handler).ruleSyntax (r₀.route c handler).rule = _ from hparse]
          have hadded : childRoute B t f c = some (r₀.route c handler) := by
            rw [hroute, if_pos hparse, hf]
            rfl
          obtain ⟨s'', hrest, hs''⟩ := ih (routes ++ [r₀.route c handler]) s' hs'
          refine ⟨s'', ?_, hs''⟩
          rw [filterMap_cons_some hadded]
          rw [length_append, length_singleton, append_assoc, singleton_append] at hrest
          exact hrest
    · rw [if_pos (by simp [herr])]
      exact hskip s (hnone herr) hs

/-- The handler that is finished is kept. -/
theorem finishHandler_eq (hs : Building B t f s) {r : Router} {next : Except String H}
    (hf : f name = next.bind (B.chain name r)) :
    ∃ s', finishHandler B name r s next = (f name, s') ∧ Building B t f s' := by
  unfold finishHandler
  rw [← hf]
  cases hres : f name with
  | error e => exact ⟨s, rfl, hs⟩
  | ok h =>
    refine ⟨_, rfl, fun n h' hh' => ?_, hs.exist, hs.router⟩
    replace hh' : Function.update s.routerHandlers name (some h) n = some h' := hh'
    by_cases hn : n = name
    · rw [hn, Function.update_self] at hh'
      rw [hn, hres, some.inj hh']
    · rw [Function.update_of_ne hn] at hh'
      exact hs.handler n h' hh'

section Parsed

variable {routers : Routers} {A : String → List String} {d : DepthFirst.State String}
  (hparsed : Parsed routers t A d)
include hparsed

theorem Parsed.child_exist {name c : String} (hr : t.lookup name = some r)
    (hc : c ∈ r.childRefs) : (t.lookup c).isSome = true := by
  rw [hparsed.exist]
  exact isChild_exist ((hparsed.child name c).mp ⟨r, hr, hc⟩).1.2

/-- **The code builds the handlers**, from whatever is kept. -/
theorem buildRouterHandler_eq (quote : String → String) {fuel : ℕ} {r r₀ : RouterInfo}
    (hf : ∀ n r₀, n ∈ d.finished → t.lookup n = some r₀ → f n = assemble B t f n r₀)
    (hname : name ∈ d.finished) (hfuel : d.finished.idxOf name < fuel)
    (hr₀ : t.lookup name = some r₀) (hsame : r.toRouter = r₀.toRouter.setPriority)
    (hkids : r.childRefs = r₀.childRefs) (hs : Building B t f s) :
    ∃ s', buildRouterHandler quote B fuel name r s = some (f name, s') ∧ Building B t f s' := by
  induction fuel generalizing name r r₀ s with
  | zero => omega
  | succ fuel ih =>
    rw [buildRouterHandler]
    cases hkept : s.routerHandlers name with
    | some handler =>
      rw [hs.handler name handler hkept]
      exact ⟨s, rfl, hs⟩
    | none =>
      have hres := hf name r₀ hname hr₀
      unfold assemble at hres
      rw [hkids, hsame]
      cases htls : B.tlsError name r₀.toRouter.setPriority with
      | some e =>
        rw [htls] at hres
        rw [hres]
        exact ⟨s, rfl, hs⟩
      | none =>
        rw [htls] at hres
        dsimp only at hres ⊢
        rw [setPriority_service]
        split at hres
        · next hchildren =>
          rw [if_pos hchildren]
          obtain ⟨s', hroutes, hs'⟩ := @addChildren_eq H B t f s quote (buildRouterHandler quote B fuel)
            r₀.childRefs r₀.childRefs.length []
            (fun _ => hparsed.child_exist hr₀)
            (fun c hc r' r₀' s' hr₀' hsame' hkids' hs' => by
              obtain ⟨hfin, hlt⟩ := hparsed.child_before hname hr₀ hc
              exact ih hfin (by omega) hr₀' hsame' hkids' hs') hs
          obtain ⟨s'', hfinish, hs''⟩ := finishHandler_eq hs' hres
          refine ⟨s'', ?_, hs''⟩
          rw [← hfinish, buildChildRoutersMuxer, childRoutes, show (0 : ℕ) = ([] : List (Route H)).length
            from rfl, hroutes]
          rfl
        · next hchildren =>
          rw [if_neg hchildren]
          split at hres
          · next hsvc =>
            rw [if_pos hsvc]
            obtain ⟨s', hfinish, hs'⟩ := finishHandler_eq hs hres
            exact ⟨s', by rw [hfinish], hs'⟩
          · next hsvc =>
            rw [if_neg hsvc, hres]
            exact ⟨s, rfl, hs⟩

end Parsed

/-! ## The result -/

/-- **A child that is not disabled and whose handler is built** is in the muxer of its parent,
    with its rule and its priority, exactly when it has no error and its rule can be parsed,
    whatever else is built before. -/
theorem child_served_iff (quote : String → String) (routers : Routers) (order order' : List String)
    (hfresh : Fresh routers) (horder : Enumerates order routers) (horder' : Enumerates order' routers) :
    ∃ t, parseRouterTree quote order order' (order.length + 1) routers = some t ∧
      ∀ (H : Type) (B : Builder H), Building B t (handlerOf B t (order.length + 1)) ⟨t, fun _ => none⟩ ∧
      ∀ s, Building B t (handlerOf B t (order.length + 1)) s →
        (∀ n r, Reached routers (Child t) n → s.routers.lookup n = some r →
          ∃ s', buildRouterHandler quote B (order.length + 1) n r.setPriority s =
            some (handlerOf B t (order.length + 1) n, s') ∧
            Building B t (handlerOf B t (order.length + 1)) s') ∧
        ∀ p c rp rc h, Reached routers (Child t) p → t.lookup p = some rp → c ∈ rp.childRefs →
          t.lookup c = some rc → rc.status ≠ .disabled →
          handlerOf B t (order.length + 1) c = .ok h →
          ((∃ routes s', childRoutes quote B (buildRouterHandler quote B (order.length + 1)) rp.childRefs s =
              some (.ok routes, s') ∧ rc.route c h ∈ routes) ↔
            rc.err = [] ∧ B.parse rc.ruleSyntax rc.rule = none) := by
  obtain ⟨t, d, hparse, hparsed⟩ :=
    parseRouterTree_parsed quote hfresh horder horder' (Nat.lt_succ_self order.length)
  have hfin : ∀ {n}, Reached routers (Child t) n → n ∈ d.finished :=
    fun hn => (hparsed.finished _).mpr ((hparsed.reached_iff _).mp hn)
  refine ⟨t, hparse, fun H B => ⟨building_start, fun s hs => ?_⟩⟩
  have hhandlers : ∀ n r₀, n ∈ d.finished → t.lookup n = some r₀ →
      handlerOf B t (order.length + 1) n = assemble B t (handlerOf B t (order.length + 1)) n r₀ :=
    fun n r₀ hn hr₀ => handlerOf_eq hparsed hn (hparsed.idxOf_lt horder hn) hr₀
  refine ⟨fun n r hn hr => ?_, fun p c rp rc h hp hrp hc hrc _ hbuilt => ?_⟩
  · obtain ⟨r₀, hr₀, hsame, hkids, -, -⟩ := hs.router n r hr
    exact buildRouterHandler_eq hparsed quote hhandlers (hfin hn)
      (hparsed.idxOf_lt horder (hfin hn)) hr₀ hsame hkids hs
  · obtain ⟨s', hroutes, -⟩ := @addChildren_eq H B t (handlerOf B t (order.length + 1)) s quote
      (buildRouterHandler quote B (order.length + 1)) rp.childRefs rp.childRefs.length []
      (fun _ => hparsed.child_exist hrp)
      (fun c hc r r₀ s' hr₀ hsame hkids hs' => by
        obtain ⟨hc', -⟩ := hparsed.child_before (hfin hp) hrp hc
        exact buildRouterHandler_eq hparsed quote hhandlers hc' (hparsed.idxOf_lt horder hc') hr₀ hsame
          hkids hs') hs
    have hroute : childRoute B t (handlerOf B t (order.length + 1)) c =
        if rc.err = [] ∧ B.parse rc.ruleSyntax rc.rule = none then some (rc.route c h) else none := by
      rw [childRoute, hrc, bind_some, hbuilt]
      rfl
    rw [nil_append] at hroutes
    rw [childRoutes, show (0 : ℕ) = ([] : List (Route H)).length from rfl, hroutes]
    constructor
    · rintro ⟨routes, s'', heq, hmem⟩
      have hadded : routes = rp.childRefs.filterMap
          (childRoute B t (handlerOf B t (order.length + 1))) := by
        have hok := congrArg Prod.fst (some.inj heq)
        unfold nonEmpty at hok
        split at hok
        · cases hok
        · exact (Except.ok.inj hok).symm
      rw [hadded] at hmem
      obtain ⟨c', -, hc'⟩ := mem_filterMap.mp hmem
      -- the route names its child
      have hname : c' = c := by
        obtain ⟨r', -, hr'⟩ := bind_eq_some_iff.mp hc'
        split at hr'
        · obtain ⟨h', -, heq'⟩ := map_eq_some_iff.mp hr'
          exact congrArg Route.routerName heq'
        · cases hr'
      rw [hname, hroute] at hc'
      by_contra hcond
      rw [if_neg hcond] at hc'
      cases hc'
    · intro hcond
      have hmem : rc.route c h ∈ rp.childRefs.filterMap
          (childRoute B t (handlerOf B t (order.length + 1))) :=
        mem_filterMap.mpr ⟨c, hc, by rw [hroute, if_pos hcond]⟩
      refine ⟨_, s', ?_, hmem⟩
      rw [nonEmpty, if_neg (length_pos_of_mem hmem).ne']

/-! ## Two configurations -/

/-- Handlers that are the names of the services they lead to. -/
def services : Builder (List String) where
  tlsError _ _ := none
  buildService _ r := .ok [r.service]
  chain _ _ h := .ok h
  parse _ _ := none
  muxer routes := routes.flatMap (·.handler)

/-- A root and its child. -/
def pair : List (String × Router) :=
  [("a", ⟨["web"], [], "", "PathPrefix(/a)", "", 0, none, false⟩),
   ("b", ⟨[], ["a"], "b-service", "Path(/a/b)", "", 0, none, false⟩)]

theorem pair_served : ∃ t, parseRouterTree id ["a", "b"] ["b", "a"] 3 (newConfig pair) = some t ∧
    ∃ routes s', childRoutes id services (buildRouterHandler id services 3) ["b"] ⟨t, fun _ => none⟩ =
      some (.ok routes, s') ∧ (⟨"b", "Path(/a/b)", "", 10, ["b-service"]⟩ : Route _) ∈ routes := by
  obtain ⟨t, hparse, hserved⟩ := child_served_iff id (newConfig pair) ["a", "b"] ["b", "a"]
    (newConfig_fresh pair) (newConfig_enumerates (by decide) (by decide))
    (newConfig_enumerates (by decide) (by decide))
  have hrun : (parseRouterTree id ["a", "b"] ["b", "a"] 3 (newConfig pair)).map (fun t =>
      (t.lookup "a", t.lookup "b", (handlerOf services t 3 "b").toOption)) =
      some (some { info ⟨["web"], [], "", "PathPrefix(/a)", "", 0, none, false⟩ with
          childRefs := ["b"] },
        some (info ⟨[], ["a"], "b-service", "Path(/a/b)", "", 0, none, false⟩),
        some ["b-service"]) := by decide
  refine ⟨t, hparse, ?_⟩
  rw [show (3 : ℕ) = ["a", "b"].length + 1 from rfl, hparse] at hrun
  obtain ⟨ha, hrun⟩ := Prod.mk.inj (some.inj hrun)
  obtain ⟨hb, hhandler⟩ := Prod.mk.inj hrun
  obtain ⟨hstart, hall⟩ := hserved (List String) services
  have hbuilt : handlerOf services t 3 "b" = .ok ["b-service"] := by
    cases hb : handlerOf services t 3 "b" with
    | error e =>
      rw [show ["a", "b"].length + 1 = 3 from rfl, hb] at hhandler
      cases hhandler
    | ok h =>
      rw [show ["a", "b"].length + 1 = 3 from rfl, hb] at hhandler
      rw [some.inj hhandler]
  have hroot : Reached (newConfig pair) (Child t) "a" := ⟨"a", by decide, .refl⟩
  exact ((hall _ hstart).2 "a" "b" _ _ _ hroot ha (.head _) hb (by decide) hbuilt).mpr
    ⟨rfl, rfl⟩

/-- A router `d` that leads back to `b`, and to `e`. -/
def warned : List (String × Router) :=
  [("a", ⟨["web"], [], "", "", "", 0, none, false⟩),
   ("b", ⟨[], ["a", "d"], "", "", "", 0, none, false⟩),
   ("c", ⟨[], ["b"], "", "", "", 0, none, false⟩),
   ("d", ⟨[], ["c"], "", "", "", 0, none, false⟩),
   ("e", ⟨[], ["d"], "e-service", "", "", 0, none, false⟩)]

/-- The reference from `d` to `b` is cut.  Though `d` only has a warning, and a handler, it is
    not in the muxer of `c`, which cannot be built then. -/
theorem warned_not_served : (parseRouterTree id ["a", "b", "c", "d", "e"] ["a", "b", "c", "d", "e"] 6
    (newConfig warned)).map (fun t => ((t.lookup "d").map RouterInfo.status,
      (t.lookup "c").map RouterInfo.childRefs, (handlerOf services t 6 "d").toOption,
      (childRoutes id services (buildRouterHandler id services 6) ["d"] ⟨t, fun _ => none⟩).map
        (fun out => out.1.isOk))) =
    some (some .warning, some ["d"], some ["e-service"], some false) := by
  decide

end Ingress.RouterTree
