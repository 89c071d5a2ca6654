import HoldMargin.Netlist
import HoldMargin.Routing
/-!
# Routed designs

A design is a netlist with a routing. Only the routing changes when a
connection is rerouted, and the two are kept apart for that reason.
-/

namespace HoldMargin

/-- A routed design. -/
structure Design where
  netlist : Netlist
  routing : Routing := {}

namespace Design

/-- The name of a design. -/
def name (d : Design) : String := d.netlist.name

/-- Adds a pin. -/
def addPin (d : Design) (site : SiteId) (name : String) (role : PinRole) : Design × PinId :=
  let (netlist, id) := d.netlist.addPin site name role
  ({ d with netlist }, id)

/-- Adds a net with its committed edges. -/
def addNet (d : Design) (net : Net) (edges : EdgeSet) : Design × NetId :=
  let (netlist, id) := d.netlist.addNet net
  ({ netlist, routing := d.routing.set id edges }, id)

/-- Changes the net at a position, if there is one; its name stays indexed
as it was. -/
def modifyNet (d : Design) (id : NetId) (change : Net → Net) : Design :=
  { d with netlist.nets := d.netlist.nets.modify id.index change }

/-- The committed edges of every net of the table, in its order. -/
def routings (d : Design) : List EdgeSet :=
  (List.range d.netlist.nets.size).map d.routing.entry

/-- The design with the index of its names made again. -/
def reindex (d : Design) : Design := { d with netlist := d.netlist.reindex }

/-- The design without the index of its names. -/
def withoutIndex (d : Design) : Design := { d with netlist := d.netlist.withoutIndex }

end Design

end HoldMargin
