import HoldMargin.Occupancy
import HoldMargin.Router
import HoldMargin.Search
/-!
# The maze router

Routes one sink after the other by the cheapest path from the route as it
stands. The route may grow from any of its nodes that is not to be avoided,
and from the driver. Nodes to be avoided and nodes that other nets use are
closed. A sink that is routed already is left alone. If a sink cannot be
routed, the sinks before it stay routed.
-/

namespace HoldMargin

/-- How many expansions a search may take unless it is told otherwise. -/
def usualExpansionLimit : Nat := 200000

namespace Placement

variable (p : Placement)

/-- The search for a path to a sink of a net. -/
def pathQuery (o : Occupancy) (r : Routing) (net : NetId) (avoid : NodeSet) (target : NodeId) :
    Except PassError PathQuery := do
  let route ← p.routeOfNet r net
  let roots ← p.rootsOfNet net
  return {
    sources := roots.union (route.nodes.filter (· ∉ avoid))
    target
    isClosed := fun n => n ∈ avoid || o.isClosedTo n net }

/-- The edges to be committed so that a sink is routed: none, if it is
routed already. -/
def pathToSink (limit : Nat) (o : Occupancy) (r : Routing) (net : NetId) (avoid : NodeSet)
    (sink : PinId) : Except RouterError (List EdgeId) := do
  if ← (p.isRouted r net sink).mapError .model then
    return []
  else
    let target ← (p.pinNode sink).mapError .model
    let query ← (p.pathQuery o r net avoid target).mapError .model
    (query.search p.device limit).mapError fun
      | .noPath => .noPath sink
      | .budgetSpent => .budgetExhausted sink limit

/-- Routes sinks of a net one after the other, as far as it goes. -/
def routeSinks (limit : Nat) (net : NetId) (avoid : NodeSet) :
    List PinId → Occupancy → Routing → Routing × Except RouterError Unit
  | [], _, r => (r, .ok ())
  | sink :: sinks, o, r =>
    match p.pathToSink limit o r net avoid sink with
    | .error e => (r, .error e)
    | .ok path =>
      routeSinks limit net avoid sinks (o.addPath p.device net path)
        (r.set net ((r.of net).union path))

end Placement

/-- The router that takes the cheapest path and gives up on a sink after
`limit` expansions. -/
def mazeRouter (limit : Nat) : Router Unit where
  route p _ r request :=
    match Occupancy.ofRouting p r with
    | .error e => { state := (), routing := r, outcome := .error (.model e) }
    | .ok o =>
      let (routing, outcome) := p.routeSinks limit request.net request.avoid request.sinks o r
      { state := (), routing, outcome }

theorem routeSinks_confined (p : Placement) (limit : Nat) (net other : NetId) (avoid : NodeSet)
    (sinks : List PinId) (o : Occupancy) (r : Routing) (h : other ≠ net) :
    (p.routeSinks limit net avoid sinks o r).1.of other = r.of other := by
  induction sinks generalizing o r with
  | nil => rfl
  | cons sink sinks ih =>
    rw [Placement.routeSinks]
    split
    · rfl
    · rw [ih, Routing.of_set, if_neg h]

/-- **The maze router leaves the routes of other nets alone.** -/
theorem mazeRouter_confined (limit : Nat) : (mazeRouter limit).Confined := by
  intro p state r request net h
  simp only [mazeRouter]
  split
  · rfl
  · exact routeSinks_confined p limit request.net net request.avoid request.sinks _ r h

end HoldMargin
