import HoldMargin.Json.Record
import HoldMargin.Settings
import HoldMargin.Toml.Reader
/-!
# Settings as text

Settings are a record of sections, and every section and every setting in
it may be left out. They are read from TOML, and written and read as JSON.
-/

namespace HoldMargin

/-- Records and cases as TOML writes them: a case without fields may carry
an empty list or table. -/
def tomlNotation : Notation where
  surplusValues := true
  isUnit
    | .arr [] => true
    | .obj [] => true
    | _ => false

/-- The name of an axis. -/
def SkewAxis.name : SkewAxis → String
  | .column => "column"
  | .row => "row"

/-- The axis of a name. -/
def SkewAxis.ofName? : String → Option SkewAxis
  | "column" => some .column
  | "row" => some .row
  | _ => none

namespace Settings

variable (n : Notation)

/-- Reads the section on weighting. -/
def readWeighting (v : Json) : Option Weighting := do
  let r ← n.record? ["weight", "zero_length_floor"] v
  let weight ← r.withDefault "weight" ({} : Weighting).weight Json.count?
  let zeroLengthFloor ←
    r.withDefault "zero_length_floor" ({} : Weighting).zeroLengthFloor Json.count?
  return { weight, zeroLengthFloor }

/-- Reads the section on hold risk. -/
def readHoldRule (v : Json) : Option HoldRule := do
  let r ← n.record? ["min_wirelength", "skew_axis"] v
  let minWirelength ← r.withDefault "min_wirelength" ({} : HoldRule).minWirelength Json.count?
  let skewAxis ← r.withDefault "skew_axis" ({} : HoldRule).skewAxis fun v =>
    (n.case? v).bind SkewAxis.ofName?
  return { minWirelength, skewAxis }

/-- Reads the section on repair. -/
def readRepairPolicy (v : Json) : Option RepairPolicy := do
  let r ← n.record? ["max_attempts", "max_connections", "rollback_on_failure"] v
  let maxAttempts ← r.withDefault "max_attempts" ({} : RepairPolicy).maxAttempts
    (Json.natBelow? UInt32.size)
  let maxConnections ←
    r.withDefault "max_connections" ({} : RepairPolicy).maxConnections Json.count?
  let rollbackOnFailure ←
    r.withDefault "rollback_on_failure" ({} : RepairPolicy).rollbackOnFailure Json.bool?
  return { maxAttempts, maxConnections, rollbackOnFailure }

/-- Reads the section on reports. -/
def readReportSize (v : Json) : Option Nat := do
  let r ← n.record? ["top_k"] v
  r.withDefault "top_k" ({} : Settings).reportSize Json.count?

/-- Reads the section on the nets left out. -/
def readSkippedDrivers (v : Json) : Option (List String) := do
  let r ← n.record? ["skip_driver_patterns"] v
  r.withDefault "skip_driver_patterns" ({} : Settings).skippedDrivers (Json.list? Json.text?)

/-- Reads settings, of whatever size. -/
def ofJson? (v : Json) : Option Settings := do
  let r ← n.record? ["wirelength", "hold", "repair", "report", "filter"] v
  let weighting ← r.withDefault "wirelength" ({} : Settings).weighting (readWeighting n)
  let hold ← r.withDefault "hold" ({} : Settings).hold (readHoldRule n)
  let repair ← r.withDefault "repair" ({} : Settings).repair (readRepairPolicy n)
  let reportSize ← r.withDefault "report" ({} : Settings).reportSize (readReportSize n)
  let skippedDrivers ←
    r.withDefault "filter" ({} : Settings).skippedDrivers (readSkippedDrivers n)
  return { weighting, hold, repair, reportSize, skippedDrivers }

/-- Settings as a record of sections. -/
def toJson (s : Settings) : Json :=
  .obj [
    ("wirelength", .obj [
      ("weight", .nat s.weighting.weight),
      ("zero_length_floor", .nat s.weighting.zeroLengthFloor)]),
    ("hold", .obj [
      ("min_wirelength", .nat s.hold.minWirelength),
      ("skew_axis", .str s.hold.skewAxis.name)]),
    ("repair", .obj [
      ("max_attempts", .nat s.repair.maxAttempts),
      ("max_connections", .nat s.repair.maxConnections),
      ("rollback_on_failure", .bool s.repair.rollbackOnFailure)]),
    ("report", .obj [("top_k", .nat s.reportSize)]),
    ("filter", .obj [("skip_driver_patterns", .list .str s.skippedDrivers)])]

/-- The settings a settings file denotes, if they can be run with. -/
def ofToml (text : String) : Except SettingsError Settings :=
  match (Toml.read text).bind (ofJson? tomlNotation) with
  | some s => s.check
  | none => .error .malformed

end Settings

end HoldMargin
