import HoldMargin.IdSet
/-!
# The register of fabric entries

The fabric nodes at which measured connections enter and leave the fabric,
by the end of the connection. A node may be registered for both ends, and
registering it again changes nothing.
-/

namespace HoldMargin

/-- An end of a connection. -/
inductive End where
  /-- Where the driver's wiring joins the fabric. -/
  | driver
  /-- Where the fabric feeds the sink's wiring. -/
  | sink
deriving DecidableEq

/-- The registered fabric nodes. -/
structure Entries where
  drivers : NodeSet := ∅
  sinks : NodeSet := ∅
deriving DecidableEq

/-- How many nodes are registered. -/
structure EntryTally where
  /-- For any end; a node registered for both counts once. -/
  total : Nat
  drivers : Nat
  sinks : Nat
deriving DecidableEq

namespace Entries

/-- Registers a node for an end. -/
def register (es : Entries) (e : End) (n : NodeId) : Entries :=
  match e with
  | .driver => { es with drivers := es.drivers.insert n }
  | .sink => { es with sinks := es.sinks.insert n }

/-- Counts the registered nodes. -/
def counts (es : Entries) : EntryTally where
  total := (es.drivers.union es.sinks.toList).size
  drivers := es.drivers.size
  sinks := es.sinks.size

end Entries

end HoldMargin
