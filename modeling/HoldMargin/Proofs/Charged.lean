import HoldMargin.Proofs.Drained
import HoldMargin.Proofs.Layered
import HoldMargin.Settings.Text
/-!
# What a hop is charged

Settings that are read from a text leave no hop through the fabric free: a node without a
length of its own is charged the floor, which is at least one (`Settings.pos_of_ofToml`).
So a visit to a fabric node adds to the length, unless the length is at its greatest
already, and a length of zero is that of a root (`Route.Tells.get?_eq_zero_iff`). Lengths
of connections are read in the fabric. Thus a connection of length zero is one that is
read where a driver enters, and those that the rankings list are those that take a hop.
-/

namespace HoldMargin

open Relation

/-! ## Tolls -/

namespace Settings

variable {s : Settings} {text : String}

end Settings

variable {d : Device} {w : Weighting}

/-- Entering a node of the fabric takes a toll. -/
theorem Weighting.toll_pos {n : NodeId} {toll : Nat} (hfloor : 0 < w.zeroLengthFloor)
    (hf : d.isFabric n = true) (h : w.toll d n = some toll) : 0 < toll := by
  obtain ⟨length, -, rfl⟩ := Option.map_eq_some_iff.mp h
  rw [if_pos hf]
  dsimp only
  split
  · exact hfloor
  · rename_i hne
    exact Nat.pos_of_ne_zero hne

namespace Route.Tells

variable {r : Route} {roots : List NodeId} {ls : Lengths} {n : NodeId}

/-- **A hop into the fabric makes a length greater**, if there is a greater one. -/
theorem lt_of_visit (h : r.Tells d w roots ls) (hfloor : 0 < w.zeroLengthFloor) {v : Visit}
    (hv : v ∈ r.walk roots) (hf : d.isFabric v.node = true) :
    ∃ j k, ls.get? v.src = some j ∧ ls.get? v.node = some k ∧ 0 < k ∧
      (j < k ∨ k = maxLength) := by
  obtain ⟨j, toll, hj, ht, hk⟩ := h.exists_of_visit hv
  have hpos := w.toll_pos hfloor hf ht
  have hmax : 0 < maxLength := by decide
  refine ⟨j, _, hj, hk, ?_, ?_⟩ <;> unfold clamp <;> omega

/-- **A length of zero in the fabric** is that of a root. -/
theorem get?_eq_zero_iff (h : r.Tells d w roots ls) (hfloor : 0 < w.zeroLengthFloor)
    (hf : d.isFabric n = true) : ls.get? n = some 0 ↔ n ∈ roots := by
  refine ⟨fun hzero => ?_, h.root n⟩
  rcases met_iff.mpr (h.exists_get?_iff.mp ⟨0, hzero⟩) with hn | ⟨v, hv, rfl⟩
  · exact hn
  · obtain ⟨_, k, -, hk, hpos, -⟩ := h.lt_of_visit hfloor hv hf
    rw [hk, Option.some.injEq] at hzero
    omega

end Route.Tells

/-! ## Connections that take a hop -/

/-- The fabric nodes that the drivers of the connections enter. -/
def MeasuredNet.driverEntries (m : MeasuredNet) : NodeSet :=
  entryNodes (m.connections.map fun c => c.toConnection)

namespace Placement

variable {p : Placement} {s : Settings} {r : Routing} {id : NetId} {m : MeasuredNet}
  {c : MeasuredConnection}

/-- **How a net was measured**: along a route, from where its drivers enter, and its
connections at nodes of the fabric. -/
structure MeasuredAlong (p : Placement) (w : Weighting) (r : Routing) (m : MeasuredNet)
    (route : Route) : Prop where
  made : p.routeOfNet r m.net = .ok route
  tells : route.Tells p.device w m.driverEntries.toList m.lengths
  read : ∀ c ∈ m.connections, ∀ ends, c.ends = some ends →
    p.device.isFabric ends.sink = true
  length : ∀ c ∈ m.connections, c.length = c.ends.bind fun ends => m.lengths.get? ends.sink

namespace MeasuredAlong

variable {route : Route} {w : Weighting}

/-- The nodes that have a length are those that committed edges lead to from where a
driver enters. -/
theorem exists_get?_iff (h : p.MeasuredAlong w r m route) {n : NodeId} :
    (∃ k, m.lengths.get? n = some k) ↔ p.device.Supplies (r.of m.net) m.driverEntries n := by
  rw [h.tells.exists_get?_iff, (draws_of_routeOfNet h.made).leads_eq]
  rfl

/-- **A connection has length zero** exactly if it is read where a driver enters. -/
theorem length_eq_zero_iff (h : p.MeasuredAlong w r m route) (hfloor : 0 < w.zeroLengthFloor)
    (hc : c ∈ m.connections) :
    c.length = some 0 ↔ ∃ ends, c.ends = some ends ∧ ends.sink ∈ m.driverEntries := by
  rw [h.length c hc, Option.bind_eq_some_iff]
  refine exists_congr fun ends => and_congr_right fun hends => ?_
  exact h.tells.get?_eq_zero_iff hfloor (h.read c hc ends hends)

end MeasuredAlong

end Placement

end HoldMargin
