import HoldMargin.Design
import HoldMargin.Device.Json
/-!
# Designs as JSON

A design is the object of its name, its nets and its pins, and a net holds
its committed edges in ascending order. Absent sources are written as
null; an alternate source, committed edges and a general role may be left
out on reading.
-/

namespace HoldMargin

/-- The name of a kind of net. -/
def NetKind.name : NetKind → String
  | .wire => "wire"
  | .clock => "clock"
  | .vcc => "vcc"
  | .gnd => "gnd"

/-- The kind of net of a name. -/
def NetKind.ofName? (name : String) : Option NetKind :=
  [NetKind.wire, .clock, .vcc, .gnd].find? (·.name = name)

/-- The name of a role. -/
def PinRole.name : PinRole → String
  | .general => "general"
  | .carryOut => "carry_out"
  | .carryIn => "carry_in"

/-- The role of a name. -/
def PinRole.ofName? (name : String) : Option PinRole :=
  [PinRole.general, .carryOut, .carryIn].find? (·.name = name)

/-- A set of identifiers as JSON, ascending. -/
def IdSet.toJson {t : Table} (s : IdSet t) : Json := .list TableId.toJson s.toList

/-- Reads a set of identifiers from a list in any order. -/
def IdSet.ofJson? {t : Table} (v : Json) : Option (IdSet t) :=
  (v.list? Json.id?).map IdSet.ofList

/-- A pin as JSON. -/
def Pin.toJson (p : Pin) : Json :=
  .obj [
    ("id", p.id.toJson), ("site", p.site.toJson), ("name", .str p.name),
    ("role", .str p.role.name)]

/-- Reads a pin. -/
def Pin.ofJson? (v : Json) : Option Pin := do
  let r ← jsonNotation.record? ["id", "site", "name", "role"] v
  let id ← r.required "id" Json.id?
  let site ← r.required "site" Json.id?
  let name ← r.required "name" Json.text?
  let role ← r.withDefault "role" .general fun v => (jsonNotation.case? v).bind PinRole.ofName?
  return { id, site, name, role }

/-- A net with its committed edges as JSON. -/
def Net.toJson (n : Net) (edges : EdgeSet) : Json :=
  .obj [
    ("id", n.id.toJson), ("name", .str n.name), ("kind", .str n.kind.name),
    ("source", .optional TableId.toJson n.source),
    ("alternate_source", .optional TableId.toJson n.alternateSource),
    ("sinks", .list TableId.toJson n.sinks),
    ("routing", edges.toJson)]

/-- Reads a net with its committed edges. -/
def Net.ofJson? (v : Json) : Option (Net × EdgeSet) := do
  let r ← jsonNotation.record?
    ["id", "name", "kind", "source", "alternate_source", "sinks", "routing"] v
  let id ← r.required "id" Json.id?
  let name ← r.required "name" Json.text?
  let kind ← r.required "kind" fun v => (jsonNotation.case? v).bind NetKind.ofName?
  let source ← r.nullable "source" Json.id?
  let alternateSource ← r.withDefault "alternate_source" none (Json.orNull? Json.id?)
  let sinks ← r.required "sinks" (Json.list? Json.id?)
  let edges ← r.withDefault "routing" ∅ IdSet.ofJson?
  return ({ id, name, kind, source, alternateSource, sinks }, edges)

/-- A design as JSON. -/
def Design.toJson (d : Design) : Json :=
  .obj [
    ("name", .str d.name),
    ("nets", .arr ((d.netlist.nets.toList.zip d.routings).map fun (net, edges) =>
      net.toJson edges)),
    ("pins", .table Pin.toJson d.netlist.pins)]

/-- Reads a design, without the index of its names. -/
def Design.ofJson? (v : Json) : Option Design := do
  let r ← jsonNotation.record? ["name", "nets", "pins"] v
  let name ← r.required "name" Json.text?
  let nets ← r.required "nets" (Json.list? Net.ofJson?)
  let pins ← r.required "pins" (Json.table? Pin.ofJson?)
  return {
    netlist := { name, nets := (nets.map Prod.fst).toArray, pins }
    routing := { sets := (nets.map Prod.snd).toArray } }

end HoldMargin
