import HoldMargin.Route
/-!
# Walking a route breadth first

`Route.walk` lists the nodes a route reaches from some roots, in the order
in which a breadth-first walk meets them, each with the node it was met
from. The walk goes in rounds: a round takes the nodes of the round before
one after the other and each node's arcs in their order, and keeps what
has not been met yet. Every round but the last uses up an arc, so there
are no more rounds than arcs.
-/

namespace HoldMargin

/-- A node of a route and the node it was first met from. -/
structure Visit where
  node : NodeId
  src : NodeId
deriving DecidableEq

namespace Route

/-- All hops from the nodes of a frontier, as visits. -/
def departures (r : Route) (frontier : List NodeId) : List Visit :=
  frontier.flatMap fun n => (r.successors n).map fun m => { node := m, src := n }

/-- The visits to nodes that are not in `seen`, the first one of each node. -/
def firstVisits (seen : List NodeId) : List Visit → List Visit
  | [] => []
  | v :: vs =>
    if v.node ∈ seen then firstVisits seen vs else v :: firstVisits (v.node :: seen) vs

/-- The visits of some rounds from a frontier; `seen` holds all nodes met so
far. -/
def walkFrom (r : Route) (seen frontier : List NodeId) : (rounds : Nat) → List Visit
  | 0 => []
  | rounds + 1 =>
    let fresh := firstVisits seen (r.departures frontier)
    let next := fresh.map Visit.node
    fresh ++ r.walkFrom (seen ++ next) next rounds

/-- The visits of the breadth-first walk from some roots. -/
def walk (r : Route) (roots : List NodeId) : List Visit :=
  r.walkFrom roots.eraseDups roots.eraseDups r.arcs.length

/-- Whether a node is a root or is met on the walk from the roots. -/
def reaches (r : Route) (roots : List NodeId) (n : NodeId) : Bool :=
  n ∈ roots || (r.walk roots).any (·.node = n)

theorem firstVisits_subset {seen : List NodeId} {vs : List Visit} {v : Visit}
    (h : v ∈ firstVisits seen vs) : v ∈ vs := by
  induction vs generalizing seen with
  | nil => exact h
  | cons w vs ih =>
    rw [firstVisits] at h
    split at h
    · exact List.mem_cons_of_mem _ (ih h)
    · rcases List.mem_cons.mp h with rfl | h
      · exact List.mem_cons_self
      · exact List.mem_cons_of_mem _ (ih h)

/-- A first visit is to a node that had not been met. -/
theorem not_mem_of_mem_firstVisits {seen : List NodeId} {vs : List Visit} {v : Visit}
    (h : v ∈ firstVisits seen vs) : v.node ∉ seen := by
  induction vs generalizing seen with
  | nil => simp [firstVisits] at h
  | cons w vs ih =>
    rw [firstVisits] at h
    split at h
    · exact ih h
    · rename_i hw
      rcases List.mem_cons.mp h with rfl | h
      · exact hw
      · exact fun hv => ih h (List.mem_cons_of_mem _ hv)

/-- **A round misses nothing:** a node that is visited is met already or has
a first visit. -/
theorem mem_or_exists_firstVisits {seen : List NodeId} {vs : List Visit} {v : Visit}
    (h : v ∈ vs) : v.node ∈ seen ∨ ∃ w ∈ firstVisits seen vs, w.node = v.node := by
  induction vs generalizing seen with
  | nil => simp at h
  | cons w vs ih =>
    rw [firstVisits]
    split
    · rename_i hw
      rcases List.mem_cons.mp h with rfl | h
      · exact .inl hw
      · exact ih h
    · rcases List.mem_cons.mp h with rfl | h
      · exact .inr ⟨v, List.mem_cons_self, rfl⟩
      · rcases @ih (w.node :: seen) h with hv | ⟨x, hx, hxv⟩
        · rcases List.mem_cons.mp hv with he | hv
          · exact .inr ⟨w, List.mem_cons_self, he.symm⟩
          · exact .inl hv
        · exact .inr ⟨x, List.mem_cons_of_mem _ hx, hxv⟩

end Route

end HoldMargin
