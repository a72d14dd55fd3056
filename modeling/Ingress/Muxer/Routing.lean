import Ingress.Muxer.Http
import Ingress.Muxer.Tcp

/-! # Routing

    What both muxers have in common: a rule means what it says, and the best route
    that matches is chosen.

    * `rule_means`: the matchers of a rule are its Boolean value.
    * `best_route`: the routes after any calls, and the one that is selected. -/

open BoolExpr Dispatch Ingress.Rules Ingress.Muxer

namespace Ingress.Routing

open HttpMuxer TcpMuxer

/-- **A rule means what it says.**  Each muxer accepts a rule only when it is an
    expression of known matchers; whatever the route was asked before, it matches
    exactly when the expression is true, each leaf being replaced by what its matcher
    returns. -/
theorem rule_means {M R H : Type} :
    (∀ (call : M → HttpMuxer.Request R → Bool × M) (s : HttpMuxer.SyntaxParser M)
      (syntaxName rule : String) (t : MatchersTree M), s.parse call syntaxName rule = .ok t →
      ∀ reqs, ∃ e d, read rule = some e ∧
        Compiled (kind call) (s.funcs syntaxName) e d ∧
        ∀ req, ((t.after (kind call) reqs).matchOn (kind call) req).1 =
          d.value (Leaf.answer (kind call) req)) ∧
    (∀ (call : M → TcpMuxer.ConnData → Bool × M) (parser parserV2 : MatcherFuncs M)
      (c : TcpMuxer.AddRoute H) (route : TcpMuxer.Route M H),
      c.route call parser parserV2 = .ok route →
      ∀ conns, ∃ e d, read c.rule = some e ∧
        Compiled (kind call) (funcsOf parser parserV2 c.syntaxName) e d ∧
        ∀ conn, ((route.matchers.after (kind call) conns).matchOn
          (kind call) conn).1 = d.value (Leaf.answer (kind call) conn)) := by
  refine ⟨?_, ?_⟩
  · intro call s syntaxName rule t h reqs
    exact matchOn_compiled (compile_of_parse h) reqs
  · intro call parser parserV2 c route h conns
    exact matchOn_compiled (compile_of_route h) conns

/-- Matchers that compare their argument with the request. -/
def equalTo : HttpMuxer.SyntaxParser String where
  v2 := []
  v3 := [("Is", fun s => .ok (s.headD ""))]

/-- A call of such a matcher. -/
def callEqualTo (m : String) (req : HttpMuxer.Request String) : Bool × String :=
  (m = req.rest, m)

theorem rule_means_negation :
    ∃ t, equalTo.parse callEqualTo "v3" "!(Is(`a`) && !!Is(`b`))" = .ok t ∧
      ∃ e d, read "!(Is(`a`) && !!Is(`b`))" = some e ∧
        Compiled (kind callEqualTo) (equalTo.funcs "v3") e d ∧
        ∀ req, (t.matchOn (kind callEqualTo) req).1 =
          d.value (Leaf.answer (kind callEqualTo) req) := by
  obtain ⟨t, ht⟩ : ∃ t, equalTo.parse callEqualTo "v3" "!(Is(`a`) && !!Is(`b`))" = .ok t := ⟨_, rfl⟩
  exact ⟨t, ht, (rule_means (H := Unit)).1 _ _ _ _ t ht []⟩

/-- **The best route.**  After any calls the routes are those of the calls of
    `AddRoute` that succeeded, by priority; a request is served by a matching route of
    the highest priority, and by the default handler when none matches; a call of
    `AddRoute` that fails changes nothing. -/
theorem best_route {M R H : Type} :
    (∀ (call : M → HttpMuxer.Request R → Bool × M) (sorter : HttpMuxer.RouteSorter M H)
      (parser : HttpMuxer.SyntaxParser M) (defaultHandler : H)
      (calls : List (Event (HttpMuxer.AddRoute H) (HttpMuxer.Request R))),
      let m := HttpMuxer.Muxer.run call sorter parser defaultHandler calls
      Stored HttpMuxer.Route.priority (serveRoute call)
          (calls.filterMap (Event.entry (HttpMuxer.AddRoute.route call parser))) m.routes ∧
        (∀ req, HttpMuxer.Serves call m req) ∧
        ∀ c err, (m.addRoute call sorter c).1 = .error err → (m.addRoute call sorter c).2 = m) ∧
    (∀ (call : M → TcpMuxer.ConnData → Bool × M) (sorter : TcpMuxer.RouteSorter M H)
      (parser parserV2 : MatcherFuncs M)
      (calls : List (Event (TcpMuxer.AddRoute H) TcpMuxer.ConnData)),
      let m := TcpMuxer.Muxer.run call sorter parser parserV2 calls
      Stored TcpMuxer.Route.priority (TcpMuxer.Route.ask call)
          (calls.filterMap (Event.entry (TcpMuxer.AddRoute.route call parser parserV2))) m.routes ∧
        (∀ conn, TcpMuxer.Matches call m conn) ∧
        ∀ c err, (m.addRoute call sorter c).1 = .error err →
          (m.addRoute call sorter c).2 = m) := by
  refine ⟨?_, ?_⟩
  · intro call sorter parser defaultHandler calls m
    have hstored := run_stored call sorter parser defaultHandler calls
    exact ⟨hstored, serves_of_sorted hstored.sorted, addRoute_error⟩
  · intro call sorter parser parserV2 calls m
    have hstored := run_stored call sorter parser parserV2 calls
    exact ⟨hstored, matches_of_sorted hstored.sorted, addRoute_error⟩

end Ingress.Routing
