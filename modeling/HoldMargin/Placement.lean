import HoldMargin.Device.Projection
import HoldMargin.Netlist
import HoldMargin.PassError
import HoldMargin.Route.Branch
import HoldMargin.Route.Walk
import HoldMargin.Routing
/-!
# A netlist on its device

What follows from a netlist and the device it is placed on: the node of a
pin, the drivers a sink can be reached from, and, given a routing, the
committed route of a net, which of its sinks are routed and what a sink's
branch is.
-/

namespace HoldMargin

/-- A netlist and the device it is placed on. -/
structure Placement where
  device : Device
  netlist : Netlist

/-- The pin of the site that a pin instance stands for. -/
def Pin.onSite (p : Pin) : SitePin := { site := p.site, name := p.name }

namespace Placement

variable (p : Placement)

/-! ## Nets and pins -/

/-- The net of an identifier. -/
def net (id : NetId) : Except PassError Net :=
  match p.netlist.net? id with
  | some net => .ok net
  | none => .error (.unknownNet id)

/-- The pin of an identifier. -/
def pin (id : PinId) : Except PassError Pin :=
  match p.netlist.pin? id with
  | some pin => .ok pin
  | none => .error (.unknownPin id)

/-- A pin in reports: its site and its name, as far as they are known. -/
def label (id : PinId) : String :=
  match p.netlist.pin? id with
  | some pin =>
    match p.device.site? pin.site with
    | some site => s!"{site.name}/{pin.name}"
    | none => s!"site#{pin.site}/{pin.name}"
  | none => s!"pin#{id}"

/-- The node a pin is wired to. -/
def pinNode (id : PinId) : Except PassError NodeId := do
  let pin ← p.pin id
  match p.device.pinNode? pin.onSite with
  | some n => .ok n
  | none => .error (.unknownPin id)

/-- Whether a driver reaches a sink only through the alternate source of
the net. A carry output drives the carry input of its site's successor and
nothing else. -/
def needsAlternate (source sink : PinId) : Except PassError Bool := do
  let src ← p.pin source
  if src.role = .carryOut then
    let dst ← p.pin sink
    let successor := (p.device.site? src.site).bind Site.carrySuccessor
    .ok !(dst.role = .carryIn && successor = some dst.site)
  else .ok false

/-- The nodes a driver's routes grow from: the node of its pin and the
fabric node it enters. -/
def rootsOf (driver : PinId) : Except PassError (List NodeId) := do
  let pin ← p.pin driver
  .ok ((p.device.pinNode? pin.onSite).toList ++ (p.device.outputEntry? pin.onSite).toList)

/-- The nodes the route of a net grows from. -/
def rootsOfNet (net : NetId) : Except PassError NodeSet := do
  let n ← p.net net
  let roots ← n.drivers.mapM p.rootsOf
  .ok (IdSet.ofList roots.flatten)

/-! ## Committed routes -/

/-- The hop that a committed edge of a net makes. -/
def hopOf (net : String) (id : EdgeId) : Except PassError Arc :=
  match p.device.edge? id with
  | some e => .ok { src := e.src, dst := e.dst, edge := id }
  | none => .error (.unknownEdge net id)

/-- The route that edges of a net make up, taken in order. -/
def routeOf (net : String) (edges : List EdgeId) : Except PassError Route := do
  let hops ← edges.mapM (p.hopOf net)
  .ok (Route.ofArcs hops)

/-- The committed route of a net. -/
def routeOfNet (r : Routing) (net : NetId) : Except PassError Route := do
  let n ← p.net net
  p.routeOf n.name (r.of net).toList

/-- Whether the node of a sink is reached from a driver by committed edges. -/
def isRouted (r : Routing) (net : NetId) (sink : PinId) : Except PassError Bool := do
  let target ← p.pinNode sink
  let route ← p.routeOfNet r net
  let roots ← p.rootsOfNet net
  .ok (route.reaches roots.toList target)

/-- The committed edges that serve a sink alone, the edge at the sink first.
It is an error if the way up from the sink comes back to itself. -/
def branch (r : Routing) (net : NetId) (sink : PinId) : Except PassError (List EdgeId) := do
  let target ← p.pinNode sink
  let route ← p.routeOfNet r net
  let roots ← p.rootsOfNet net
  match route.branch roots target with
  | .ok edges => .ok edges
  | .error n =>
    let net ← p.net net
    .error (.brokenLaw s!"committed route of net {net.name} loops through node {n}")

/-- Takes a sink's branch out of the route of its net: the edges taken out,
and the routing without them. -/
def unroute (r : Routing) (net : NetId) (sink : PinId) :
    Except PassError (List EdgeId × Routing) := do
  let edges ← p.branch r net sink
  .ok (edges, r.set net ((r.of net).diff edges))

end Placement

end HoldMargin
