import HoldMargin.Connection
import HoldMargin.Length
import HoldMargin.Usage
/-!
# Measuring a design

The length of a connection is read at the fabric node that feeds its sink.
A pin may be fed by several nodes, and it is the route that says which one
counts: the node the device projects the pin onto gives way to the node
the route comes through, provided that node has a length. A fabric
connection without a length is one whose sink the route does not reach; it
is reported and measurement goes on.
-/

namespace HoldMargin

/-- A connection and its length. A direct connection has none, nor has one
whose sink the route does not reach. -/
structure MeasuredConnection extends Connection where
  length : Option Nat
deriving DecidableEq

/-- A sink that the committed route of its net does not reach. -/
structure UnreachedSink where
  net : String
  sink : String
deriving DecidableEq

/-- What measuring a net gives. -/
structure MeasuredNet where
  net : NetId
  name : String
  connections : List MeasuredConnection
  /-- The lengths at the nodes the route reaches. -/
  lengths : Lengths
  /-- The fabric nodes of the route, reached or not. -/
  usage : Usage
  unreached : List UnreachedSink

namespace MeasuredNet

/-- The connection to a sink. -/
def connection? (m : MeasuredNet) (sink : PinId) : Option MeasuredConnection :=
  m.connections.find? (·.sink = sink)

/-- The length of the connection to a sink. -/
def length? (m : MeasuredNet) (sink : PinId) : Option Nat :=
  (m.connection? sink).bind MeasuredConnection.length

end MeasuredNet

/-- The measurements of the analyzed nets of a design, in their order. -/
structure Measurement where
  nets : List MeasuredNet

namespace Measurement

/-- The connections of all nets. -/
def connections (m : Measurement) : List MeasuredConnection := m.nets.flatMap (·.connections)

/-- The number of connections that dedicated wiring serves. -/
def directCount (m : Measurement) : Nat := m.connections.countP (·.isDirect)

/-- The number of connections that have a length. -/
def measuredCount (m : Measurement) : Nat :=
  m.connections.countP fun c => !c.isDirect && c.length.isSome

/-- The use of routing resources by all nets. -/
def usage (m : Measurement) : Usage := m.nets.foldl (fun u n => u.merge n.usage) {}

/-- The sinks that no route reaches. -/
def unreached (m : Measurement) : List UnreachedSink := m.nets.flatMap (·.unreached)

/-- The lengths by net; of two nets of one identifier the later one counts. -/
def lengths (m : Measurement) : IdMap .nets Lengths :=
  m.nets.foldl (fun ls n => ls.insert n.net n.lengths) ∅

end Measurement

/-- The fabric node a route comes through to a node, within some hops of
dedicated wiring. -/
def Route.feed? (r : Route) (d : Device) (n : NodeId) : (hops : Nat) → Option NodeId
  | 0 => if d.isFabric n then some n else none
  | hops + 1 => if d.isFabric n then some n else (r.arrival? n).bind fun a => r.feed? d a.src hops

/-- The usage with one more node of the route of a net; wiring outside the
fabric is not counted. -/
def Usage.visit (u : Usage) (d : Device) (net : String) (n : NodeId) : Except PassError Usage :=
  match d.node? n with
  | some node => .ok (if d.isFabric n then u.record node.kind node.length else u)
  | none => .error (.unknownNode net n)

/-- The usage by the route of a net. -/
def Route.usage (r : Route) (d : Device) (net : String) : Except PassError Usage :=
  r.nodes.foldlM (Usage.visit · d net) {}

namespace Placement

variable (p : Placement)

/-- The report that a sink is not reached. -/
def unreachedFinding (net : String) (c : Connection) : Finding where
  severity := .warning
  code := .sinkNotReached
  message := s!"net {net} is not fully routed"
  location := .connection net (p.label c.driver) (p.label c.sink)

/-- The node the route comes through to a sink, if it counts in place of the
node the device projects the sink onto. -/
def reroutedFeed? (route : Route) (lengths : Lengths) (projected pinNode : NodeId) :
    Option NodeId :=
  (route.feed? p.device pinNode projectionReach).filter fun n =>
    n ≠ projected && lengths.contains n

/-- Measures a connection of a net: where the route comes through is
registered, if it counts, and a sink that is not reached is reported. -/
def measureConnection (net : String) (route : Route) (lengths : Lengths) (c : Connection) :
    Pass MeasuredConnection := do
  match c.ends with
  | none => return { c with length := none }
  | some ends =>
    let pinNode ← Pass.ofExcept (p.pinNode c.sink)
    let rerouted := p.reroutedFeed? route lengths ends.sink pinNode
    match rerouted with
    | some feed => Pass.register .sink feed
    | none => pure ()
    let ends := { ends with sink := rerouted.getD ends.sink }
    let length := lengths.get? ends.sink
    match length with
    | some _ => pure ()
    | none => Pass.report (p.unreachedFinding net c)
    return { c with ends := some ends, length }

/-- The sinks of measured connections that are not reached. -/
def unreachedSinks (net : String) (cs : List MeasuredConnection) : List UnreachedSink :=
  (cs.filter fun c => !c.isDirect && c.length.isNone).map fun c =>
    { net, sink := p.label c.sink }

/-- Measures a net. -/
def measureNet (w : Weighting) (r : Routing) (id : NetId) : Pass MeasuredNet := do
  let connections ← p.connections id
  let net ← Pass.ofExcept (p.net id)
  let route ← Pass.ofExcept (p.routeOfNet r id)
  let lengths ← Pass.ofExcept
    (route.lengthsFrom w p.device net.name (entryNodes connections).toList)
  let usage ← Pass.ofExcept (route.usage p.device net.name)
  let measured ← connections.mapM (p.measureConnection net.name route lengths)
  return {
    net := id, name := net.name, connections := measured, lengths, usage
    unreached := p.unreachedSinks net.name measured }

/-- Measures a net if it takes part in measurement. -/
def measureAnalyzed (s : Settings) (r : Routing) (id : NetId) : Pass (Option MeasuredNet) := do
  if ← Pass.ofExcept (p.isAnalyzed s id) then
    return some (← p.measureNet s.weighting r id)
  else
    return none

/-- Measures every net that takes part, under the identifier it carries. -/
def measure (s : Settings) (r : Routing) : Pass Measurement := do
  let measured ← p.netlist.nets.toList.mapM fun net => p.measureAnalyzed s r net.id
  return { nets := measured.filterMap id }

end Placement

end HoldMargin
