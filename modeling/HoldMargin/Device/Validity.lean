import HoldMargin.Device
/-!
# Validity of a device

A device is valid if every entry carries the identifier of its position
and every reference from one table to another resolves. `Device.validate`
reports the first fault it meets: misplaced entries table by table, then
references in the order sites, nodes, edges, pins.
-/

namespace HoldMargin

/-- What is wrong with the tables of a device. -/
inductive DeviceFault where
  /-- The entry at a position of a table carries another identifier. -/
  | misplacedId (table : Table) (position : Nat) (id : UInt32)
  | unknownTile (tile : TileId)
  | unknownSite (site : SiteId)
  | unknownNode (node : NodeId)
  /-- An edge leads from or to a node that does not exist. -/
  | danglingEdge (edge : EdgeId) (node : NodeId)
deriving DecidableEq

/-- The message of a fault. -/
def DeviceFault.message : DeviceFault → String
  | .misplacedId table position id => s!"{table.name} entry at index {position} carries id {id}"
  | .unknownTile tile => s!"unknown tile {tile}"
  | .unknownSite site => s!"unknown site {site}"
  | .unknownNode node => s!"unknown node {node}"
  | .danglingEdge edge node => s!"edge {edge} references unknown node {node}"

namespace Device

/-- The first identifier that is not the position it stands at, counting
positions from `position`. -/
def findMisplaced? {t : Table} (position : Nat) : List (TableId t) → Option DeviceFault
  | [] => none
  | id :: ids =>
    if id.index = position then findMisplaced? (position + 1) ids
    else some (.misplacedId t position id.raw)

/-- The first fault of a site. -/
def siteFault? (d : Device) (s : Site) : Option DeviceFault :=
  if (d.tile? s.tile).isNone then some (.unknownTile s.tile)
  else
    match s.carrySuccessor with
    | some next => if (d.site? next).isNone then some (.unknownSite next) else none
    | none => none

/-- The fault of a node. -/
def nodeFault? (d : Device) (n : Node) : Option DeviceFault :=
  if (d.tile? n.tile).isNone then some (.unknownTile n.tile) else none

/-- The first fault of an edge. -/
def edgeFault? (d : Device) (e : Edge) : Option DeviceFault :=
  if (d.node? e.src).isNone then some (.danglingEdge e.id e.src)
  else if (d.node? e.dst).isNone then some (.danglingEdge e.id e.dst)
  else none

/-- The first fault of a pin binding. -/
def bindingFault? (d : Device) (b : PinBinding) : Option DeviceFault :=
  if (d.site? b.pin.site).isNone then some (.unknownSite b.pin.site)
  else if (d.node? b.node).isNone then some (.unknownNode b.node)
  else none

/-- The first fault of a device. -/
def fault? (d : Device) : Option DeviceFault :=
  findMisplaced? 0 (d.tiles.toList.map Tile.id)
    <|> findMisplaced? 0 (d.sites.toList.map Site.id)
    <|> findMisplaced? 0 (d.nodes.toList.map Node.id)
    <|> findMisplaced? 0 (d.edges.toList.map Edge.id)
    <|> d.sites.toList.findSome? d.siteFault?
    <|> d.nodes.toList.findSome? d.nodeFault?
    <|> d.edges.toList.findSome? d.edgeFault?
    <|> d.pinBindings.toList.findSome? d.bindingFault?

/-- Refuses a device that has a fault. -/
def validate (d : Device) : Except DeviceFault Unit :=
  match d.fault? with
  | some fault => .error fault
  | none => .ok ()

end Device

end HoldMargin
