import HoldMargin.TableId
import Std.Data.TreeMap
/-!
# The placed netlist

The part of a design that routing does not change: its pins, each on a
placed site, and its nets, each with a driver and sinks. Nets and pins are
looked up by the position of their identifier; the identifier an entry
carries is kept beside it, since a design read from a file may carry any.
-/

namespace HoldMargin

/-- The class of signal a net carries. -/
inductive NetKind where
  | wire
  | clock
  /-- The constant one. -/
  | vcc
  /-- The constant zero. -/
  | gnd
deriving DecidableEq

/-- The part a pin plays in dedicated carry wiring. -/
inductive PinRole where
  /-- None: the pin is reached through the fabric. -/
  | general
  | carryOut
  | carryIn
deriving DecidableEq

/-- A pin instance on a placed site. -/
structure Pin where
  id : PinId
  site : SiteId
  name : String
  role : PinRole
deriving DecidableEq

/-- A net, from its driver to its sinks. -/
structure Net where
  id : NetId
  name : String
  kind : NetKind
  /-- The driver. -/
  source : Option PinId
  /-- The driver of the sinks that the first one cannot reach. -/
  alternateSource : Option PinId
  /-- The sinks, in the order of their connections. -/
  sinks : List PinId
deriving DecidableEq

namespace Net

/-- The drivers of a net, the first one first. -/
def drivers (n : Net) : List PinId := n.source.toList ++ n.alternateSource.toList

/-- Whether a net has a driver and a sink. -/
def isComplete (n : Net) : Bool := n.source.isSome && !n.sinks.isEmpty

end Net

/-- The nets and pins of a design. -/
structure Netlist where
  name : String
  nets : Array Net := #[]
  pins : Array Pin := #[]
  /-- Nets by name, as far as they have been indexed. -/
  byName : Std.TreeMap String NetId := ∅

namespace Netlist

/-- Adds a pin. -/
def addPin (nl : Netlist) (site : SiteId) (name : String) (role : PinRole) : Netlist × PinId :=
  let id := .ofIndex nl.pins.size
  ({ nl with pins := nl.pins.push { id, site, name, role } }, id)

/-- Adds a net and indexes its name; the net carries the identifier of its
position, whatever it carried before. -/
def addNet (nl : Netlist) (net : Net) : Netlist × NetId :=
  let id := .ofIndex nl.nets.size
  ({ nl with
     nets := nl.nets.push { net with id }
     byName := nl.byName.insert net.name id }, id)

/-- The net at the position of an identifier. -/
def net? (nl : Netlist) (id : NetId) : Option Net := nl.nets[id.index]?

/-- The pin at the position of an identifier. -/
def pin? (nl : Netlist) (id : PinId) : Option Pin := nl.pins[id.index]?

/-- The net indexed under a name. -/
def netByName? (nl : Netlist) (name : String) : Option NetId := nl.byName[name]?

/-- The names of the nets with their positions; of several nets of one name
the last one counts. -/
def indexOfNames (nl : Netlist) : Std.TreeMap String NetId :=
  nl.nets.toList.zipIdx.foldl (fun ix (net, i) => ix.insert net.name (.ofIndex i)) ∅

/-- The netlist with the index of its names made again. -/
def reindex (nl : Netlist) : Netlist := { nl with byName := nl.indexOfNames }

/-- The netlist without the index of its names. -/
def withoutIndex (nl : Netlist) : Netlist := { nl with byName := ∅ }

end Netlist

end HoldMargin
