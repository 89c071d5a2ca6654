import HoldMargin.Device
/-!
# Where a pin meets the fabric

A pin is wired to a node that need not belong to the routing fabric.
Dedicated wiring leads from there to the fabric, downhill for a driver and
uphill for a sink. The pin's entry is the nearest fabric node within a
fixed number of hops; of several at the same distance, the one a
breadth-first walk meets first. A pin without an entry is served by
dedicated wiring alone.
-/

namespace HoldMargin

/-- The way along the edges. -/
inductive Way where
  | downhill
  | uphill
deriving DecidableEq

/-- The most hops of dedicated wiring between a pin's node and the fabric. -/
def projectionReach : Nat := 4

/-- The members of `xs` that are not in `seen`, each where it first occurs. -/
def unseen {α : Type} [BEq α] (seen xs : List α) : List α :=
  (xs.filter fun x => !seen.contains x).eraseDups

namespace Device

/-- The nodes one hop from a node, in the order of its edges. Edges that
are not in the device lead nowhere. -/
def hop (d : Device) (way : Way) (n : NodeId) : List NodeId :=
  match way with
  | .downhill => ((d.downhill n).filterMap d.edge?).map Edge.dst
  | .uphill => ((d.uphill n).filterMap d.edge?).map Edge.src

/-- The first fabric node of the frontier or, failing that, of the walk that
goes on from it for some more hops. `seen` holds all nodes met so far. -/
def nearestFabric? (d : Device) (way : Way) (seen frontier : List NodeId) :
    (hops : Nat) → Option NodeId
  | 0 => frontier.find? d.isFabric
  | hops + 1 =>
    match frontier.find? d.isFabric with
    | some n => some n
    | none =>
      let next := unseen seen (frontier.flatMap (d.hop way))
      nearestFabric? d way (seen ++ next) next hops

/-- The fabric node that a pin's node projects onto. -/
def project? (d : Device) (way : Way) (start : NodeId) : Option NodeId :=
  d.nearestFabric? way [start] [start] projectionReach

/-- The fabric node that feeds a sink pin. -/
def inputEntry? (d : Device) (pin : SitePin) : Option NodeId :=
  (d.pinNode? pin).bind (d.project? .uphill)

/-- The fabric node that a driver pin enters. -/
def outputEntry? (d : Device) (pin : SitePin) : Option NodeId :=
  (d.pinNode? pin).bind (d.project? .downhill)

end Device

end HoldMargin
