import HoldMargin.Device
import HoldMargin.IdSet
import HoldMargin.Route
/-!
# Searching the cheapest path

Entering a node costs one more than the node's length. The search keeps
for every node the cheapest path to it found so far, and it keeps the paths
still to be followed up, the most promising first: what a path costs, plus
the tile distance from its end to the target. A path that has been undercut
since it was opened is stale and is passed over. Tile distances may promise
too much, so a node may be followed up again when a cheaper path to it
turns up. Each follow-up is an expansion, and the search gives up when its
budget of expansions is spent.
-/

namespace HoldMargin

/-- What is searched: a path from one of the sources to the target. -/
structure PathQuery where
  sources : NodeSet
  target : NodeId
  /-- The nodes that must not be entered. The target may be entered even if
  it is one of them. -/
  isClosed : NodeId → Bool

/-- Why a search found no path. -/
inductive SearchFailure where
  /-- There is none. -/
  | noPath
  /-- The budget was spent. -/
  | budgetSpent
deriving DecidableEq

/-- The cheapest path to a node found so far. -/
structure PathLabel where
  cost : Nat
  /-- The last hop; a source has none. -/
  last : Option Arc
deriving DecidableEq

/-- A path still to be followed up. -/
structure OpenPath where
  /-- The cost and the distance from the end to the target. -/
  estimate : Nat
  /-- The end of the path. -/
  node : NodeId
  cost : Nat
deriving DecidableEq

/-- What it costs to enter a node. -/
def Device.entryCost (d : Device) (n : NodeId) : Nat := 1 + (d.lengthOf? n).getD 0

/-- The hops along the edges that leave a node. -/
def Device.hopsFrom (d : Device) (n : NodeId) : List Arc :=
  ((d.downhill n).filterMap d.edge?).map fun e => { src := n, dst := e.dst, edge := e.id }

namespace PathQuery

/-- Whether a path may enter a node. A source is where paths start, so none
enters one. -/
def mayEnter (q : PathQuery) (n : NodeId) : Bool :=
  !(n ∈ q.sources : Bool) && (n = q.target || !q.isClosed n)

/-- The distance from a node to the target, as far as it is known. -/
def distance (q : PathQuery) (d : Device) (n : NodeId) : Nat :=
  (d.tileDistance? n q.target).getD 0

/-- The path to a node, to be followed up. -/
def openPath (q : PathQuery) (d : Device) (n : NodeId) (cost : Nat) : OpenPath where
  estimate := cost + q.distance d n
  node := n
  cost := cost

@[simp] theorem openPath_node (q : PathQuery) (d : Device) (n : NodeId) (cost : Nat) :
    (q.openPath d n cost).node = n := rfl

@[simp] theorem openPath_cost (q : PathQuery) (d : Device) (n : NodeId) (cost : Nat) :
    (q.openPath d n cost).cost = cost := rfl

end PathQuery

/-- Whether `a` is followed up before `b`; of two equally promising paths
the one to the lower node comes first. -/
def OpenPath.precedes (a b : OpenPath) : Bool :=
  a.estimate < b.estimate || (a.estimate = b.estimate && a.node < b.node)

/-- How far a search has come. -/
structure Search where
  /-- The paths to be followed up, the most promising first. -/
  frontier : List OpenPath := []
  labels : Std.TreeMap NodeId PathLabel := ∅

namespace Search

/-- Puts a path at its place among those to be followed up. -/
def enqueue (o : OpenPath) : List OpenPath → List OpenPath
  | [] => [o]
  | v :: vs => if o.precedes v then o :: v :: vs else v :: enqueue o vs

/-- The search with a new cheapest path to a node. -/
def label (s : Search) (o : OpenPath) (last : Option Arc) : Search where
  frontier := enqueue o s.frontier
  labels := s.labels.insert o.node { cost := o.cost, last }

variable (d : Device) (q : PathQuery)

/-- The search with only the sources reached. -/
def start : Search := q.sources.toList.foldl (fun s n => s.label (q.openPath d n 0) none) {}

/-- Whether a path of some cost would be the cheapest to a node so far. -/
def undercuts (s : Search) (n : NodeId) (cost : Nat) : Bool :=
  (s.labels[n]?).all fun l => cost < l.cost

/-- Follows a hop from the end of a path of some cost. -/
def followHop (cost : Nat) (s : Search) (a : Arc) : Search :=
  let cost := cost + d.entryCost a.dst
  if q.mayEnter a.dst && s.undercuts a.dst cost then s.label (q.openPath d a.dst cost) (some a)
  else s

/-- Follows all hops from the end of a path. -/
def followUp (s : Search) (o : OpenPath) : Search :=
  (d.hopsFrom o.node).foldl (followHop d q o.cost) s

/-- Whether a cheaper path to the same end has been found since. -/
def isStale (s : Search) (o : OpenPath) : Bool :=
  (s.labels[o.node]?).any fun l => l.cost < o.cost

/-- The edges of the path to a node, followed by `rest`. A path has no more
hops than there are labels. -/
def pathTo (s : Search) (n : NodeId) (rest : List EdgeId) : (hops : Nat) → List EdgeId
  | 0 => rest
  | hops + 1 =>
    match (s.labels[n]?).bind PathLabel.last with
    | some a => s.pathTo a.src (a.edge :: rest) hops
    | none => rest

/-- Follows up the most promising path until it ends at the target. -/
def run (s : Search) (budget : Nat) : Except SearchFailure (List EdgeId) :=
  match s.frontier.dropWhile s.isStale with
  | [] => .error .noPath
  | o :: frontier =>
    if o.node = q.target then .ok (s.pathTo o.node [] s.labels.size)
    else
      match budget with
      | 0 => .error .budgetSpent
      | budget + 1 => run ({ s with frontier }.followUp d q o) budget

end Search

/-- The edges of the cheapest path, the first hop first. -/
def PathQuery.search (q : PathQuery) (d : Device) (budget : Nat) :
    Except SearchFailure (List EdgeId) :=
  (Search.start d q).run d q budget

end HoldMargin
