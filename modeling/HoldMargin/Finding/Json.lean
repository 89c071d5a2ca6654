import HoldMargin.Finding
import HoldMargin.Json.Record
/-!
# Findings as JSON

A finding is an object of its parts. A location without parts is its name
alone, and one with parts an object that has the name as its only field.
-/

namespace HoldMargin

/-- The name of a kind of finding. -/
def FindingKind.name : FindingKind → String
  | .error => "Error"
  | .warning => "Warning"
  | .hold => "Hold"
  | .route => "Route"

/-- The kind of finding of a name. -/
def FindingKind.ofName? : String → Option FindingKind
  | "Error" => some .error
  | "Warning" => some .warning
  | "Hold" => some .hold
  | "Route" => some .route
  | _ => none

/-- The severity of a name. -/
def Severity.ofName? : String → Option Severity
  | "warning" => some .warning
  | "error" => some .error
  | _ => none

/-- A code as JSON. -/
def FindingCode.toJson (c : FindingCode) : Json :=
  .obj [("category", .str c.kind.name), ("number", .nat c.number)]

/-- Reads a code; its number is a 16-bit word. -/
def FindingCode.ofJson? (v : Json) : Option FindingCode := do
  let r ← jsonNotation.record? ["category", "number"] v
  let kind ← r.required "category" fun v => (jsonNotation.case? v).bind FindingKind.ofName?
  let number ← r.required "number" (Json.natBelow? UInt16.size)
  return { kind, number }

/-- A location as JSON. -/
def Location.toJson : Location → Json
  | .design => .str "Design"
  | .net name => .obj [("Net", .obj [("net", .str name)])]
  | .connection name driver sink =>
    .obj [("Connection", .obj [("net", .str name), ("driver", .str driver), ("sink", .str sink)])]

/-- Reads a location. -/
def Location.ofJson? : Json → Option Location
  | .str "Design" => some .design
  | .obj [("Design", .null)] => some .design
  | .obj [("Net", v)] => do
    let r ← jsonNotation.record? ["net"] v
    return .net (← r.required "net" Json.text?)
  | .obj [("Connection", v)] => do
    let r ← jsonNotation.record? ["net", "driver", "sink"] v
    return .connection (← r.required "net" Json.text?) (← r.required "driver" Json.text?)
      (← r.required "sink" Json.text?)
  | _ => none

/-- A finding as JSON. -/
def Finding.toJson (f : Finding) : Json :=
  .obj [
    ("severity", .str f.severity.name),
    ("code", f.code.toJson),
    ("message", .str f.message),
    ("location", f.location.toJson),
    ("notes", .list .str f.notes),
    ("help", .list .str f.help)]

/-- Reads a finding. -/
def Finding.ofJson? (v : Json) : Option Finding := do
  let r ← jsonNotation.record? ["severity", "code", "message", "location", "notes", "help"] v
  let severity ← r.required "severity" fun v => (jsonNotation.case? v).bind Severity.ofName?
  let code ← r.required "code" FindingCode.ofJson?
  let message ← r.required "message" Json.text?
  let location ← r.required "location" Location.ofJson?
  let notes ← r.required "notes" (Json.list? Json.text?)
  let help ← r.required "help" (Json.list? Json.text?)
  return { severity, code, message, location, notes, help }

end HoldMargin
