import HoldMargin.IdMap
import HoldMargin.PassError
import HoldMargin.Device
import HoldMargin.Route.Walk
import HoldMargin.Settings
/-!
# Lengths along a route

The length at a node is what its route has entered on the way there.
`Route.lengthsFrom` starts every root at zero and follows the breadth-first
walk, so a node gets its length once, from the node it was first met from.
Lengths are 64-bit counts and stay at the greatest one instead of passing
it.
-/

namespace HoldMargin

/-- The greatest length. -/
def maxLength : Nat := UInt64.size - 1

/-- A length, held at the greatest one. -/
def clamp (n : Nat) : Nat := min n maxLength

/-- The toll of a node is what entering it adds to the length, if there is
such a node. Only the fabric takes a toll: the wiring between a pin and the
fabric is dedicated and free. In the fabric a node of weighted length zero
takes the least toll there is. -/
def Weighting.toll (w : Weighting) (d : Device) (n : NodeId) : Option Nat :=
  (d.lengthOf? n).map fun length =>
    if d.isFabric n then
      let weighted := clamp (w.weight * length)
      if weighted = 0 then w.zeroLengthFloor else weighted
    else 0

/-- The lengths at the nodes a route reaches. -/
abbrev Lengths := IdMap .nodes Nat

/-- The lengths with the length at one more visited node. -/
def Lengths.visit (ls : Lengths) (w : Weighting) (d : Device) (net : String) (v : Visit) :
    Except PassError Lengths :=
  match w.toll d v.node with
  | some step => .ok (ls.insert v.node (clamp ((ls.get? v.src).getD 0 + step)))
  | none => .error (.unknownNode net v.node)

/-- The lengths at all nodes that the route of a net reaches from some
roots. -/
def Route.lengthsFrom (r : Route) (w : Weighting) (d : Device) (net : String)
    (roots : List NodeId) : Except PassError Lengths :=
  (r.walk roots).foldlM (Lengths.visit · w d net) (IdMap.ofKeys roots 0)

theorem clamp_le (n : Nat) : clamp n ≤ maxLength := Nat.min_le_right _ _

/-- Holding a part of a sum at the greatest length does not change the sum,
once it is held there itself. -/
theorem clamp_clamp_add (m n : Nat) : clamp (clamp m + n) = clamp (m + n) := by
  unfold clamp; omega

end HoldMargin
