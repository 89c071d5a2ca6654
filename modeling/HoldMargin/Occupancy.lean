import HoldMargin.Placement
/-!
# Occupied nodes

Which nets use which nodes. A node that another net uses is closed to a
net, also if the net uses it itself.
-/

namespace HoldMargin

/-- The nets that use each node. -/
structure Occupancy where
  users : Std.TreeMap NodeId (IdSet .nets) := ∅

namespace Occupancy

/-- The nets that use a node. -/
def usersOf (o : Occupancy) (node : NodeId) : IdSet .nets := o.users.getD node ∅

/-- A net uses a node from now on. -/
def add (o : Occupancy) (node : NodeId) (net : NetId) : Occupancy :=
  ⟨o.users.insert node ((o.usersOf node).insert net)⟩

/-- A net uses both ends of an edge from now on. -/
def addEdge (o : Occupancy) (e : Edge) (net : NetId) : Occupancy :=
  (o.add e.src net).add e.dst net

/-- A net uses the ends of those edges that are in the device. -/
def addPath (o : Occupancy) (d : Device) (net : NetId) (path : List EdgeId) : Occupancy :=
  (path.filterMap d.edge?).foldl (·.addEdge · net) o

/-- Whether a node is used by another net than `net`. -/
def isClosedTo (o : Occupancy) (node : NodeId) (net : NetId) : Bool :=
  (o.usersOf node).toList.any (· ≠ net)

/-- A net uses the ends of its committed edges. -/
def addRoute (o : Occupancy) (p : Placement) (net : Net) (edges : List EdgeId) :
    Except PassError Occupancy :=
  edges.foldlM (fun o id =>
    match p.device.edge? id with
    | some e => .ok (o.addEdge e net.id)
    | none => .error (.unknownEdge net.name id)) o

/-- The occupancy by all committed routes; a net is known by the identifier
it carries. -/
def ofRouting (p : Placement) (r : Routing) : Except PassError Occupancy :=
  p.netlist.nets.toList.zipIdx.foldlM
    (fun o (net, i) => o.addRoute p net (r.entry i).toList) {}

/-- **Only the node itself gets a user.** -/
@[simp] theorem usersOf_add (o : Occupancy) (node other : NodeId) (net : NetId) :
    (o.add node net).usersOf other =
      if other = node then (o.usersOf node).insert net else o.usersOf other := by
  unfold add usersOf
  rw [Std.TreeMap.getD_insert]
  by_cases h : other = node
  · subst h; simp
  · have hne : compare node other ≠ .eq := fun he =>
      h (Std.LawfulEqOrd.eq_of_compare he).symm
    simp [h, hne]

theorem isClosedTo_iff {o : Occupancy} {node : NodeId} {net : NetId} :
    o.isClosedTo node net ↔ ∃ other ∈ o.usersOf node, other ≠ net := by
  simp [isClosedTo, IdSet.mem_def]

end Occupancy

end HoldMargin
