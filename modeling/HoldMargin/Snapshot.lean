import HoldMargin.Design.Json
import HoldMargin.Device.Validity
import HoldMargin.Json.Printer
import HoldMargin.Json.Reader
import HoldMargin.Placement
/-!
# Snapshots

A snapshot is a routed design together with its device, as one file. A
snapshot is read only if its device is valid; the indices are not in the
file and are made again on reading.
-/

namespace HoldMargin

/-- A routed design and its device. -/
structure Snapshot where
  device : Device
  design : Design

/-- Why a snapshot was refused. -/
inductive SnapshotError where
  /-- The text is no snapshot. -/
  | malformed
  /-- The device is not valid. -/
  | invalid (fault : DeviceFault)
deriving DecidableEq

/-- The message of a refusal. -/
def SnapshotError.message : SnapshotError → String
  | .malformed => "malformed snapshot"
  | .invalid fault => fault.message

namespace Snapshot

/-- The netlist of a snapshot on its device. -/
def placement (s : Snapshot) : Placement := { device := s.device, netlist := s.design.netlist }

/-- A snapshot as JSON. -/
def toJson (s : Snapshot) : Json :=
  .obj [("device", s.device.toJson), ("design", s.design.toJson)]

/-- Reads a snapshot as it is written, without its indices. -/
def ofJson? (v : Json) : Option Snapshot := do
  let r ← jsonNotation.record? ["device", "design"] v
  let device ← r.required "device" Device.ofJson?
  let design ← r.required "design" Design.ofJson?
  return { device, design }

/-- A snapshot as text. -/
def text (s : Snapshot) : String := s.toJson.pretty

/-- Reads a snapshot with a valid device, and indexes it. -/
def ofText (text : String) : Except SnapshotError Snapshot :=
  match (Json.read text).bind ofJson? with
  | none => .error .malformed
  | some s =>
    let device := s.device.reindex
    match device.validate with
    | .error fault => .error (.invalid fault)
    | .ok () => .ok { device, design := s.design.reindex }

end Snapshot

end HoldMargin
