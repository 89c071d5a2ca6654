import HoldMargin.IdSet
import HoldMargin.Route
/-!
# The branch of a sink

The edges that a route spends on one sink alone: the way up from the
sink's node, up to the first node that is a root or from which the route
goes on to other nodes as well. On the way up a node can come twice only
if the route is no tree.
-/

namespace HoldMargin.Route

/-- The edges of the way up from a node, the lowest first, or the node that
the way comes to a second time. `seen` holds the nodes of the way so far;
they are distinct ends of arcs, so a way is no longer than the route. -/
def climb (r : Route) (roots : NodeSet) (seen : List NodeId) (node : NodeId) :
    (steps : Nat) → Except NodeId (List EdgeId)
  | 0 => .ok []
  | steps + 1 =>
    if node ∈ roots then .ok []
    else
      match r.arrival? node with
      | none => .ok []
      | some a =>
        if a.src ∈ seen then .error a.src
        else if (r.successors a.src).length > 1 ∨ a.src ∈ roots then .ok [a.edge]
        else (r.climb roots (a.src :: seen) a.src steps).map (a.edge :: ·)

/-- The branch of the sink at a node, the edge at the sink first. -/
def branch (r : Route) (roots : NodeSet) (node : NodeId) : Except NodeId (List EdgeId) :=
  r.climb roots [node] node (r.arcs.length + 1)

end HoldMargin.Route
