import HoldMargin.Pass
import HoldMargin.Placement
import HoldMargin.Settings
/-!
# Connections of a net

A net is taken apart into connections, one for each distinct sink, from the
driver that reaches it. A connection whose driver and sink both project
onto the fabric runs through the fabric between its two ends; any other is
direct, which is to say that dedicated wiring serves it.
-/

namespace HoldMargin

/-- A connection, up to its length: the net and the sink tell it from all
others. -/
structure NetSink where
  net : NetId
  sink : PinId
deriving DecidableEq

/-- Where a connection enters and leaves the fabric. -/
structure FabricEnds where
  driver : NodeId
  sink : NodeId
deriving DecidableEq

/-- A connection from a driver to a sink. -/
structure Connection where
  /-- The position of the sink among the sinks of the net. -/
  index : Nat
  net : NetId
  driver : PinId
  sink : PinId
  /-- The ends in the fabric; a direct connection has none. -/
  ends : Option FabricEnds
deriving DecidableEq

namespace Connection

/-- What tells a connection from all others. -/
def key (c : Connection) : NetSink := { net := c.net, sink := c.sink }

/-- Whether dedicated wiring serves the connection. -/
def isDirect (c : Connection) : Bool := c.ends.isNone

end Connection

namespace Placement

variable (p : Placement)

/-- Whether a net is measured and repaired: it carries a signal, it has a
driver and a sink, and the settings do not leave its driver out. -/
def isAnalyzed (s : Settings) (id : NetId) : Except PassError Bool := do
  let net ← p.net id
  match net.source with
  | some source => .ok (net.kind = .wire && net.isComplete && !s.leavesOut (p.label source))
  | none => .ok false

/-- The driver that reaches a sink of a net. -/
def driverOf (net : Net) (source sink : PinId) : Except PassError PinId := do
  if ← p.needsAlternate source sink then
    match net.alternateSource with
    | some alternate => .ok alternate
    | none => .error (.missingAlternateSource net.name (p.label source) (p.label sink))
  else .ok source

/-- The ends of a connection in the fabric, if it has both. -/
def endsOf (driver sink : PinId) : Except PassError (Option FabricEnds) := do
  let sinkPin ← p.pin sink
  match p.device.inputEntry? sinkPin.onSite with
  | none => .ok none
  | some exit =>
    let driverPin ← p.pin driver
    .ok ((p.device.outputEntry? driverPin.onSite).map fun entry => ⟨entry, exit⟩)

/-- The connection to the sink at a position; its ends are registered. -/
def connect (id : NetId) (net : Net) (source : PinId) (index : Nat) (sink : PinId) :
    Pass Connection := do
  let driver ← Pass.ofExcept (p.driverOf net source sink)
  let ends ← Pass.ofExcept (p.endsOf driver sink)
  match ends with
  | some ends =>
    Pass.register .driver ends.driver
    Pass.register .sink ends.sink
  | none => pure ()
  return { index, net := id, driver, sink, ends }

/-- The distinct sinks of a list with their first positions, counted from
`position`. -/
def firstSinks (seen : List PinId) (position : Nat) : List PinId → List (Nat × PinId)
  | [] => []
  | s :: ss =>
    if s ∈ seen then firstSinks seen (position + 1) ss
    else (position, s) :: firstSinks (s :: seen) (position + 1) ss

/-- The connections of a net, in the order of its sinks. A net without a
driver has none. -/
def connections (id : NetId) : Pass (List Connection) := do
  let net ← Pass.ofExcept (p.net id)
  match net.source with
  | some source =>
    (firstSinks [] 0 net.sinks).mapM fun (index, sink) => p.connect id net source index sink
  | none => return []

end Placement

/-- The fabric nodes that the drivers of connections enter. -/
def entryNodes (cs : List Connection) : NodeSet :=
  IdSet.ofList (cs.filterMap fun c => c.ends.map FabricEnds.driver)

end HoldMargin
