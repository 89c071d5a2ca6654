import HoldMargin.Ranking
import HoldMargin.Repair.Abandonment
import HoldMargin.Router
/-!
# Repairing one connection

A connection is lengthened in rounds. A round takes out the branch of the
sink, adds the fabric nodes the branch entered to the nodes to be avoided,
asks the router for another path and measures again. The rounds end when
the connection is long enough, when the router fails or does not reach the
sink, when a round has found nothing new to avoid, or when the last round
allowed is spent. Nodes the connection cannot do without are never avoided:
the roots of its driver, its own ends and the nodes of its pins, and nodes
that may be passed again and again.

All rounds are kept, with the nodes that were to be avoided and the routing
at each turn.
-/

namespace HoldMargin

/-- What repair works with. -/
structure Repairer (σ : Type) where
  placement : Placement
  settings : Settings
  router : Router σ

/-- A round of a repair. -/
structure Round where
  /-- The routing at the start of the round. -/
  before : Routing
  /-- The routing without the branch of the sink. -/
  cut : Routing
  /-- The nodes the router was asked not to enter. -/
  avoid : NodeSet
  /-- The routing as the router left it. -/
  after : Routing

/-- The repair of one connection, as far as it has come. -/
structure Progress (σ : Type) where
  /-- The state of the router. -/
  state : σ
  routing : Routing
  avoid : NodeSet := ∅
  /-- The rounds so far, the first one first. -/
  rounds : List Round := []
  events : List Event := []

/-- How a round turned out. -/
inductive RoundResult where
  /-- The session cannot go on. -/
  | stopped (error : PassError)
  /-- The router found no path. -/
  | unroutable
  /-- The connection has this length now, if the route reaches its sink;
  `grew` says whether the round had anything new to avoid. -/
  | rerouted (length : Option Nat) (grew : Bool)

/-- How the repair of a connection ended. -/
inductive RepairOutcome where
  /-- The connection is long enough. -/
  | repaired (length : Nat)
  | abandoned (record : Abandonment)
  /-- The session cannot go on. -/
  | stopped (error : PassError)

/-- A connection that was picked for repair, and what became of it. -/
structure Pick where
  candidate : Ranked
  /-- The routing when the connection was picked. -/
  before : Routing
  rounds : List Round
  /-- The routing when repair was done with the connection. -/
  after : Routing
  outcome : RepairOutcome

namespace Placement

variable (p : Placement)

/-- The nodes that the repair of a connection never avoids. -/
def keptNodes (c : Ranked) : Except PassError NodeSet := do
  let roots ← p.rootsOfNet c.net
  let pinNode ← p.pinNode c.sink
  let sink ← p.pin c.sink
  let driver ← p.pin c.driver
  let ends := (p.device.inputEntry? sink.onSite).toList ++
    (p.device.outputEntry? driver.onSite).toList
  return (roots.insert pinNode).union ends

/-- Whether a node may be avoided. -/
def isAvoidable (kept : NodeSet) (n : NodeId) : Bool :=
  p.device.isFabric n && !(p.device.kindOf? n).any NodeKind.isReusable && n ∉ kept

/-- The nodes that committed edges of a net enter and that may be avoided. -/
def nodesToAvoid (net : NetId) (kept : NodeSet) (edges : List EdgeId) :
    Except PassError (List NodeId) := do
  let name := ((p.netlist.net? net).map Net.name).getD ""
  let hops ← edges.mapM (p.hopOf name)
  return (hops.map Arc.dst).filter (p.isAvoidable kept)

end Placement

namespace Repairer

variable {σ : Type} (rp : Repairer σ)

/-- The length below which a connection is repaired. -/
def threshold : Nat := rp.settings.hold.minWirelength

/-- The branch of a sink, and what it gives to avoid. -/
def plan (c : Ranked) (kept : NodeSet) (r : Routing) :
    Except PassError (List EdgeId × List NodeId) := do
  let branch ← rp.placement.branch r c.net c.sink
  let nodes ← rp.placement.nodesToAvoid c.net kept branch
  return (branch, nodes)

/-- A round on a connection. -/
def round (c : Ranked) (kept : NodeSet) (pg : Progress σ) : Progress σ × RoundResult :=
  match rp.plan c kept pg.routing with
  | .error e => (pg, .stopped e)
  | .ok (branch, nodes) =>
    let avoid := pg.avoid.union nodes
    let cut := pg.routing.set c.net ((pg.routing.of c.net).diff branch)
    let reply := rp.router.route rp.placement pg.state cut
      { net := c.net, sinks := [c.sink], avoid }
    let next : Progress σ := {
      state := reply.state
      routing := reply.routing
      avoid
      rounds := pg.rounds ++ [{ before := pg.routing, cut, avoid, after := reply.routing }]
      events := pg.events }
    match reply.outcome with
    | .error (.model e) => (next, .stopped e)
    | .error _ => (next, .unroutable)
    | .ok () =>
      let measured := rp.placement.measureNet rp.settings.weighting reply.routing c.net
      let next := { next with events := next.events ++ Pass.silent measured.events }
      match measured.outcome with
      | .error e => (next, .stopped e)
      | .ok m => (next, .rerouted (m.length? c.sink) (pg.avoid.size < avoid.size))

/-- What becomes of a connection that is given up on. -/
def giveUp (c : Ranked) (before : Routing) (pg : Progress σ)
    (lengthAfter : Option Nat) (reason : RepairFailure) : Progress σ × RepairOutcome :=
  let restored := reason.cutsOff && rp.settings.repair.rollbackOnFailure
  let routing := if restored then pg.routing.set c.net (before.of c.net) else pg.routing
  match rp.placement.net c.net with
  | .error e => (pg, .stopped e)
  | .ok net =>
    ({ pg with routing }, .abandoned {
      net := net.name
      driver := rp.placement.label c.driver
      sink := rp.placement.label c.sink
      lengthBefore := c.length
      lengthAfter := if restored then some c.length else lengthAfter
      attempts := pg.rounds.length
      reason
      restored })

/-- The rounds on a connection, of which `further` may follow the next one. -/
def rounds (c : Ranked) (kept : NodeSet) (before : Routing) (pg : Progress σ)
    (further : Nat) : Progress σ × RepairOutcome :=
  match rp.round c kept pg with
  | (pg, .stopped e) => (pg, .stopped e)
  | (pg, .unroutable) => rp.giveUp c before pg none .routerFailed
  | (pg, .rerouted none _) => rp.giveUp c before pg none .sinkUnreached
  | (pg, .rerouted (some length) grew) =>
    if rp.threshold ≤ length then (pg, .repaired length)
    else if !grew then rp.giveUp c before pg (some length) .nothingToAvoid
    else
      match further with
      | 0 => rp.giveUp c before pg (some length) .roundsSpent
      | further + 1 => rounds c kept before pg further

/-- Repairs a connection, as well as it goes. -/
def repairOne (c : Ranked) (state : σ) (r : Routing) :
    Progress σ × RepairOutcome :=
  match rp.placement.net c.net >>= fun _ => rp.placement.keptNodes c with
  | .error e => ({ state, routing := r }, .stopped e)
  | .ok kept =>
    rp.rounds c kept r { state, routing := r } (rp.settings.repair.maxAttempts - 1)

end Repairer

end HoldMargin
