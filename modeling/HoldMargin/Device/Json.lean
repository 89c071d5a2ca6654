import HoldMargin.Device
import HoldMargin.Json.Record
/-!
# Devices as JSON

A device is written as the object of its tables; the index is left out, so
a device is read without one. An absent carry successor or length is
written as null and may be left out on reading.
-/

namespace HoldMargin

/-- A 32-bit word as JSON. -/
def Json.ofWord (w : UInt32) : Json := .nat w.toNat

/-- An identifier as JSON. -/
def TableId.toJson {t : Table} (id : TableId t) : Json := .nat id.index

/-- The name of a type of tile. -/
def TileType.name : TileType → String
  | .interconnect => "interconnect"
  | .logic => "logic"
  | .bram => "bram"
  | .dsp => "dsp"
  | .io => "io"
  | .clock => "clock"

/-- The type of tile of a name. -/
def TileType.ofName? (name : String) : Option TileType :=
  [TileType.interconnect, .logic, .bram, .dsp, .io, .clock].find? (·.name = name)

/-- The kind of node of a name. -/
def NodeKind.ofName? (name : String) : Option NodeKind := NodeKind.all.find? (·.name = name)

/-- Reads a type of tile. -/
def TileType.ofJson? (v : Json) : Option TileType := (jsonNotation.case? v).bind TileType.ofName?

/-- Reads a kind of node. -/
def NodeKind.ofJson? (v : Json) : Option NodeKind := (jsonNotation.case? v).bind NodeKind.ofName?

/-! ## Entries -/

/-- A clock region as JSON. -/
def ClockRegion.toJson (r : ClockRegion) : Json :=
  .obj [("col", .ofWord r.col), ("row", .ofWord r.row)]

/-- Reads a clock region. -/
def ClockRegion.ofJson? (v : Json) : Option ClockRegion := do
  let r ← jsonNotation.record? ["col", "row"] v
  return { col := ← r.required "col" Json.word32?, row := ← r.required "row" Json.word32? }

/-- A tile as JSON. -/
def Tile.toJson (t : Tile) : Json :=
  .obj [
    ("id", t.id.toJson), ("name", .str t.name), ("col", .ofWord t.col), ("row", .ofWord t.row),
    ("tile_type", .str t.type.name), ("clock_region", t.region.toJson)]

/-- Reads a tile. -/
def Tile.ofJson? (v : Json) : Option Tile := do
  let r ← jsonNotation.record? ["id", "name", "col", "row", "tile_type", "clock_region"] v
  let id ← r.required "id" Json.id?
  let name ← r.required "name" Json.text?
  let col ← r.required "col" Json.word32?
  let row ← r.required "row" Json.word32?
  let type ← r.required "tile_type" TileType.ofJson?
  let region ← r.required "clock_region" ClockRegion.ofJson?
  return { id, name, col, row, type, region }

/-- A site as JSON. -/
def Site.toJson (s : Site) : Json :=
  .obj [
    ("id", s.id.toJson), ("name", .str s.name), ("tile", s.tile.toJson),
    ("carry_successor", .optional TableId.toJson s.carrySuccessor)]

/-- Reads a site. -/
def Site.ofJson? (v : Json) : Option Site := do
  let r ← jsonNotation.record? ["id", "name", "tile", "carry_successor"] v
  let id ← r.required "id" Json.id?
  let name ← r.required "name" Json.text?
  let tile ← r.required "tile" Json.id?
  let carrySuccessor ← r.withDefault "carry_successor" none (Json.orNull? Json.id?)
  return { id, name, tile, carrySuccessor }

/-- A node as JSON. -/
def Node.toJson (n : Node) : Json :=
  .obj [
    ("id", n.id.toJson), ("name", .str n.name), ("tile", n.tile.toJson),
    ("kind", .str n.kind.name), ("length", .optional .ofWord n.ownLength)]

/-- Reads a node. -/
def Node.ofJson? (v : Json) : Option Node := do
  let r ← jsonNotation.record? ["id", "name", "tile", "kind", "length"] v
  let id ← r.required "id" Json.id?
  let name ← r.required "name" Json.text?
  let tile ← r.required "tile" Json.id?
  let kind ← r.required "kind" NodeKind.ofJson?
  let ownLength ← r.withDefault "length" none (Json.orNull? Json.word32?)
  return { id, name, tile, kind, ownLength }

/-- An edge as JSON. -/
def Edge.toJson (e : Edge) : Json :=
  .obj [("id", e.id.toJson), ("src", e.src.toJson), ("dst", e.dst.toJson)]

/-- Reads an edge. -/
def Edge.ofJson? (v : Json) : Option Edge := do
  let r ← jsonNotation.record? ["id", "src", "dst"] v
  let id ← r.required "id" Json.id?
  let src ← r.required "src" Json.id?
  let dst ← r.required "dst" Json.id?
  return { id, src, dst }

/-- A pin binding as JSON. -/
def PinBinding.toJson (b : PinBinding) : Json :=
  .obj [("site", b.pin.site.toJson), ("name", .str b.pin.name), ("node", b.node.toJson)]

/-- Reads a pin binding. -/
def PinBinding.ofJson? (v : Json) : Option PinBinding := do
  let r ← jsonNotation.record? ["site", "name", "node"] v
  let site ← r.required "site" Json.id?
  let name ← r.required "name" Json.text?
  let node ← r.required "node" Json.id?
  return { pin := { site, name }, node }

/-! ## Devices -/

/-- A table as JSON. -/
def Json.table {α : Type} (write : α → Json) (entries : Array α) : Json :=
  .list write entries.toList

/-- Reads a table. -/
def Json.table? {α : Type} (read : Json → Option α) (v : Json) : Option (Array α) :=
  (v.list? read).map List.toArray

/-- A device as JSON. -/
def Device.toJson (d : Device) : Json :=
  .obj [
    ("name", .str d.name),
    ("tiles", .table Tile.toJson d.tiles),
    ("sites", .table Site.toJson d.sites),
    ("nodes", .table Node.toJson d.nodes),
    ("edges", .table Edge.toJson d.edges),
    ("site_pins", .table PinBinding.toJson d.pinBindings)]

/-- Reads a device, without its index. -/
def Device.ofJson? (v : Json) : Option Device := do
  let r ← jsonNotation.record? ["name", "tiles", "sites", "nodes", "edges", "site_pins"] v
  let name ← r.required "name" Json.text?
  let tiles ← r.required "tiles" (Json.table? Tile.ofJson?)
  let sites ← r.required "sites" (Json.table? Site.ofJson?)
  let nodes ← r.required "nodes" (Json.table? Node.ofJson?)
  let edges ← r.required "edges" (Json.table? Edge.ofJson?)
  let pinBindings ← r.required "site_pins" (Json.table? PinBinding.ofJson?)
  return { name, tiles, sites, nodes, edges, pinBindings }

end HoldMargin
