import HoldMargin.TableId
import Std.Data.TreeMap
/-!
# The device model

A device is given by its tables: tiles on a grid, sites in tiles, routing
nodes anchored in tiles, directed edges between nodes, and the pins of
sites that are bound to nodes. Beside the tables it holds an index, which
lists the edges at every node and the node of every bound pin. The index
is kept up while a device is built and can be made again from the tables
(`Device.reindex`); a device read from a file starts without one.
-/

namespace HoldMargin

/-! ## Entries of the tables -/

/-- What a tile is made for. -/
inductive TileType where
  /-- A switch box of the routing fabric. -/
  | interconnect
  | logic
  | bram
  | dsp
  | io
  | clock
deriving DecidableEq

/-- A clock region, by its place in the grid of regions. -/
structure ClockRegion where
  col : UInt32
  row : UInt32
deriving DecidableEq

/-- A tile of the device grid. -/
structure Tile where
  id : TileId
  name : String
  col : UInt32
  row : UInt32
  type : TileType
  region : ClockRegion
deriving DecidableEq

/-- A placement site. -/
structure Site where
  id : SiteId
  name : String
  tile : TileId
  /-- The site whose carry input this site's carry output feeds directly. -/
  carrySuccessor : Option SiteId
deriving DecidableEq

/-- What a routing node is. -/
inductive NodeKind where
  /-- The node a site pin is wired to. -/
  | sitePin
  /-- A site output where it enters a switch box. -/
  | output
  /-- A node that feeds a site input. -/
  | pinFeed
  /-- A node that turns a signal around within a switch box. -/
  | pinBounce
  /-- A node shared by a quarter of a switch box. -/
  | sdqNode
  /-- A wire over one tile. -/
  | single
  /-- A wire over two tiles. -/
  | double
  /-- A wire over four tiles. -/
  | quad
  /-- A wire over many tiles. -/
  | long
  /-- A node that distributes clocks. -/
  | global
deriving DecidableEq

/-- A routing node. -/
structure Node where
  id : NodeId
  name : String
  tile : TileId
  kind : NodeKind
  /-- The length, if it is not the usual one of the kind. -/
  ownLength : Option UInt32
deriving DecidableEq

/-- A directed edge between two routing nodes. -/
structure Edge where
  id : EdgeId
  src : NodeId
  dst : NodeId
deriving DecidableEq

/-- A pin of a site, by name. -/
structure SitePin where
  site : SiteId
  name : String
deriving DecidableEq

/-- A pin of a site and the node it is wired to. -/
structure PinBinding where
  pin : SitePin
  node : NodeId
deriving DecidableEq

/-! ## Kinds of nodes -/

namespace NodeKind

/-- All kinds, in the order of reports. -/
def all : List NodeKind :=
  [.sitePin, .output, .pinFeed, .pinBounce, .sdqNode, .single, .double, .quad, .long, .global]

/-- The length of a node that has none of its own. -/
def usualLength : NodeKind → UInt32
  | .sdqNode | .single => 1
  | .double => 2
  | .quad => 4
  | .long => 12
  | _ => 0

/-- Whether a node may be passed again and again, so that avoiding it would
be of no use. -/
def isReusable : NodeKind → Bool
  | .pinBounce | .sdqNode => true
  | _ => false

/-- The name of a kind in reports and files. -/
def name : NodeKind → String
  | .sitePin => "site_pin"
  | .output => "output"
  | .pinFeed => "pin_feed"
  | .pinBounce => "pin_bounce"
  | .sdqNode => "sdq_node"
  | .single => "single"
  | .double => "double"
  | .quad => "quad"
  | .long => "long"
  | .global => "global"

theorem mem_all (k : NodeKind) : k ∈ all := by cases k <;> decide

end NodeKind

/-- The length of a node. -/
def Node.length (n : Node) : Nat := (n.ownLength.getD n.kind.usualLength).toNat

/-! ## The index -/

instance : Ord SitePin := ⟨compareLex (compareOn SitePin.site) (compareOn SitePin.name)⟩

instance : Std.TransOrd SitePin :=
  inferInstanceAs (Std.TransCmp (compareLex (compareOn SitePin.site) (compareOn SitePin.name)))

instance : Std.LawfulEqOrd SitePin where
  eq_of_compare {a b} h := by
    have h : (compare a.site b.site).then (compare a.name b.name) = .eq := h
    rw [Ordering.then_eq_eq] at h
    have hsite := Std.LawfulEqOrd.eq_of_compare h.1
    have hname := Std.LawfulEqOrd.eq_of_compare h.2
    cases a; cases b; cases hsite; cases hname; rfl

/-- Where to find the edges at a node and the node of a pin. -/
structure DeviceIndex where
  /-- For every node of the table, the edges that leave it. -/
  downhill : Array (Array EdgeId) := #[]
  /-- For every node of the table, the edges that enter it. -/
  uphill : Array (Array EdgeId) := #[]
  /-- The node each bound pin is wired to. -/
  pinNodes : Std.TreeMap SitePin NodeId := ∅

namespace DeviceIndex

/-- Room for one more node. -/
def addNode (ix : DeviceIndex) : DeviceIndex :=
  { ix with downhill := ix.downhill.push #[], uphill := ix.uphill.push #[] }

/-- Lists an edge at those of its ends that are in the table of nodes. -/
def addEdge (ix : DeviceIndex) (id : EdgeId) (src dst : NodeId) : DeviceIndex :=
  { ix with
    downhill := ix.downhill.modify src.index (·.push id)
    uphill := ix.uphill.modify dst.index (·.push id) }

/-- Binds a pin; an earlier binding of the pin is forgotten. -/
def bind (ix : DeviceIndex) (b : PinBinding) : DeviceIndex :=
  { ix with pinNodes := ix.pinNodes.insert b.pin b.node }

end DeviceIndex

/-! ## Devices -/

/-- A device. -/
structure Device where
  name : String
  tiles : Array Tile := #[]
  sites : Array Site := #[]
  nodes : Array Node := #[]
  edges : Array Edge := #[]
  pinBindings : Array PinBinding := #[]
  index : DeviceIndex := {}

namespace Device

/-! ### Building

Each table gives a new entry the identifier of its position. -/

/-- Adds a tile. -/
def addTile (d : Device) (name : String) (col row : UInt32) (type : TileType)
    (region : ClockRegion) : Device × TileId :=
  let id := .ofIndex d.tiles.size
  ({ d with tiles := d.tiles.push { id, name, col, row, type, region } }, id)

/-- Adds a site without a carry successor. -/
def addSite (d : Device) (name : String) (tile : TileId) : Device × SiteId :=
  let id := .ofIndex d.sites.size
  ({ d with sites := d.sites.push { id, name, tile, carrySuccessor := none } }, id)

/-- Makes `next` the carry successor of a site, if there is such a site. -/
def chainCarry (d : Device) (site next : SiteId) : Device :=
  { d with
    sites := d.sites.modify site.index fun s => { s with carrySuccessor := some next } }

/-- Adds a node, with a length of its own or without. -/
def addNode (d : Device) (name : String) (tile : TileId) (kind : NodeKind)
    (ownLength : Option UInt32) : Device × NodeId :=
  let id := .ofIndex d.nodes.size
  ({ d with
     nodes := d.nodes.push { id, name, tile, kind, ownLength }
     index := d.index.addNode }, id)

/-- Adds an edge. -/
def addEdge (d : Device) (src dst : NodeId) : Device × EdgeId :=
  let id := .ofIndex d.edges.size
  ({ d with
     edges := d.edges.push { id, src, dst }
     index := d.index.addEdge id src dst }, id)

/-- Binds a pin of a site to a node. -/
def bindPin (d : Device) (pin : SitePin) (node : NodeId) : Device :=
  { d with
    pinBindings := d.pinBindings.push { pin, node }
    index := d.index.bind { pin, node } }

/-- The index of the tables: every edge is listed under the identifier it
carries, and the last binding of a pin counts. -/
def indexOfTables (d : Device) : DeviceIndex :=
  let empty : DeviceIndex :=
    { downhill := .replicate d.nodes.size #[], uphill := .replicate d.nodes.size #[] }
  let withEdges := d.edges.foldl (fun ix e => ix.addEdge e.id e.src e.dst) empty
  d.pinBindings.foldl .bind withEdges

/-- The device with its index made again from the tables. -/
def reindex (d : Device) : Device := { d with index := d.indexOfTables }

/-- The device without an index. -/
def withoutIndex (d : Device) : Device := { d with index := {} }

/-! ### Looking up -/

/-- The tile at the position of an identifier. -/
def tile? (d : Device) (id : TileId) : Option Tile := d.tiles[id.index]?

/-- The site at the position of an identifier. -/
def site? (d : Device) (id : SiteId) : Option Site := d.sites[id.index]?

/-- The node at the position of an identifier. -/
def node? (d : Device) (id : NodeId) : Option Node := d.nodes[id.index]?

/-- The edge at the position of an identifier. -/
def edge? (d : Device) (id : EdgeId) : Option Edge := d.edges[id.index]?

/-- The edges that leave a node, in the order of the index. -/
def downhill (d : Device) (n : NodeId) : List EdgeId :=
  (d.index.downhill.getD n.index #[]).toList

/-- The edges that enter a node, in the order of the index. -/
def uphill (d : Device) (n : NodeId) : List EdgeId :=
  (d.index.uphill.getD n.index #[]).toList

/-- The node a pin is wired to. -/
def pinNode? (d : Device) (pin : SitePin) : Option NodeId := d.index.pinNodes[pin]?

/-- The first edge listed from `src` that leads to `dst`. -/
def edgeBetween? (d : Device) (src dst : NodeId) : Option EdgeId :=
  (d.downhill src).find? fun id => (d.edge? id).any (·.dst = dst)

/-! ### Derived from the tables -/

/-- The length of a node. -/
def lengthOf? (d : Device) (id : NodeId) : Option Nat := (d.node? id).map Node.length

/-- The kind of a node. -/
def kindOf? (d : Device) (id : NodeId) : Option NodeKind := (d.node? id).map Node.kind

/-- The tile a node is anchored in. -/
def tileOf? (d : Device) (id : NodeId) : Option Tile := (d.node? id).bind fun n => d.tile? n.tile

/-- Whether a node belongs to the routing fabric: its tile is a switch box. -/
def isFabric (d : Device) (id : NodeId) : Bool := (d.tileOf? id).any (·.type = .interconnect)

/-- The clock region of a site. -/
def regionOf? (d : Device) (site : SiteId) : Option ClockRegion :=
  (d.site? site).bind fun s => (d.tile? s.tile).map Tile.region

/-- The difference of two grid coordinates. -/
def gap (a b : UInt32) : UInt32 := if a < b then b - a else a - b

/-- The number of tiles between the tiles of two nodes, along columns and
rows. It is counted in the width of a coordinate, and wraps round beyond it. -/
def tileDistance? (d : Device) (a b : NodeId) : Option Nat := do
  let s ← d.tileOf? a
  let t ← d.tileOf? b
  return (gap s.col t.col + gap s.row t.row).toNat

end Device

end HoldMargin
