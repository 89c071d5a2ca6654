import HoldMargin.Finding
import HoldMargin.TableId
/-!
# What stops a pass

A pass over a design stops only where the design and the device disagree,
or where a net lacks the alternate source it needs. Anything that concerns
one connection alone is a finding, and the pass goes on.
-/

namespace HoldMargin

/-- What stops a pass over a design. -/
inductive PassError where
  /-- The driver cannot reach the sink, and no alternate source is set. -/
  | missingAlternateSource (net driver sink : String)
  | unknownNet (net : NetId)
  /-- There is no such pin, or it is not wired to a node. -/
  | unknownPin (pin : PinId)
  /-- A committed edge is not in the device. -/
  | unknownEdge (net : String) (edge : EdgeId)
  /-- A node of a committed route is not in the device. -/
  | unknownNode (net : String) (node : NodeId)
  /-- A law that routes are built to keep does not hold. -/
  | brokenLaw (message : String)
deriving DecidableEq

namespace PassError

/-- The message of an error. -/
def message : PassError → String
  | .missingAlternateSource net driver sink =>
    s!"net {net}: {driver} -> {sink} needs an alternate source but none is set"
  | .unknownNet net => s!"unknown net {net}"
  | .unknownPin pin => s!"unknown pin {pin}"
  | .unknownEdge net edge => s!"net {net}: committed edge {edge} is not in the device"
  | .unknownNode net node => s!"net {net}: routed node {node} is not in the device"
  | .brokenLaw message => s!"internal error: {message}"

/-- The code an error is reported under. -/
def code : PassError → FindingCode
  | .missingAlternateSource .. => .missingAlternateSource
  | _ => .modelMismatch

/-- Where an error applies. -/
def location : PassError → Location
  | .missingAlternateSource net driver sink => .connection net driver sink
  | .unknownEdge net _ => .net net
  | .unknownNode net _ => .net net
  | _ => .design

/-- The finding that reports an error. -/
def toFinding (e : PassError) : Finding where
  severity := .error
  code := e.code
  message := e.message
  location := e.location
  notes := match e with
    | .missingAlternateSource .. => []
    | _ => ["the routed design and the device model disagree"]
  help := match e with
    | .missingAlternateSource .. =>
      ["assign the net's alternate source pin before running hold repair"]
    | _ => []

end PassError

end HoldMargin
