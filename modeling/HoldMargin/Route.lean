import HoldMargin.TableId
/-!
# Routes

The committed route of a net as a directed graph: a list of arcs between
nodes, each labelled with the edge that realises it, in the order in which
their pairs of ends first occurred. There is one arc between two nodes in
a direction; committing another edge between them relabels the arc where
it stands (`Route.add`).
-/

namespace HoldMargin

/-- A hop of a route. -/
structure Arc where
  src : NodeId
  dst : NodeId
  edge : EdgeId
deriving DecidableEq

/-- The nodes a hop leads from and to. -/
def Arc.ends (a : Arc) : NodeId × NodeId := (a.src, a.dst)

/-- A committed route. -/
structure Route where
  /-- The arcs, in the order in which their ends first occurred. -/
  arcs : List Arc := []
deriving DecidableEq

namespace Route

/-- Adds an arc to a list, or relabels the arc between its ends. -/
def addArc (a : Arc) : List Arc → List Arc
  | [] => [a]
  | b :: bs => if b.src = a.src ∧ b.dst = a.dst then a :: bs else b :: addArc a bs

/-- The route with one more hop. -/
def add (r : Route) (a : Arc) : Route := ⟨addArc a r.arcs⟩

/-- The route made of hops in some order. -/
def ofArcs (as : List Arc) : Route := as.foldl add {}

/-- The nodes at the ends of arcs, in the order of their first occurrence. -/
def nodes (r : Route) : List NodeId := (r.arcs.flatMap fun a => [a.src, a.dst]).eraseDups

/-- The nodes that arcs lead to from a node, in the order of the arcs. -/
def successors (r : Route) (n : NodeId) : List NodeId :=
  (r.arcs.filter (·.src = n)).map Arc.dst

/-- The arcs that lead to a node, in their order. -/
def arrivals (r : Route) (n : NodeId) : List Arc := r.arcs.filter (·.dst = n)

/-- The first arc that leads to a node. -/
def arrival? (r : Route) (n : NodeId) : Option Arc := (r.arrivals n).head?

/-! ## The pairs of ends

Relabelling keeps every pair of ends at its place, so no pair occurs
twice, however often edges between two nodes are committed. -/

/-- **A new pair of ends goes last, and an old one keeps its place.** -/
theorem ends_addArc (a : Arc) (l : List Arc) :
    (addArc a l).map Arc.ends =
      if a.ends ∈ l.map Arc.ends then l.map Arc.ends else l.map Arc.ends ++ [a.ends] := by
  induction l with
  | nil => simp [addArc]
  | cons b bs ih =>
    rw [addArc]
    split
    · rename_i h
      have hends : b.ends = a.ends := by simp [Arc.ends, h]
      simp [hends]
    · rename_i h
      have hends : a.ends ≠ b.ends := by
        intro he
        simp only [Arc.ends, Prod.mk.injEq] at he
        exact h ⟨he.1.symm, he.2.symm⟩
      simp only [List.map_cons, ih, List.mem_cons, hends, false_or]
      split <;> simp

theorem nodup_ends_add {r : Route} (a : Arc) (h : (r.arcs.map Arc.ends).Nodup) :
    ((r.add a).arcs.map Arc.ends).Nodup := by
  rw [add, ends_addArc]
  split
  · exact h
  · rename_i hne
    rw [List.nodup_append]
    refine ⟨h, by simp, ?_⟩
    rintro x hx y hy rfl
    rw [List.mem_singleton] at hy
    exact hne (hy ▸ hx)

/-- No pair of ends occurs twice in a route. -/
theorem nodup_ends_ofArcs (as : List Arc) : ((ofArcs as).arcs.map Arc.ends).Nodup := by
  suffices h : ∀ r : Route, (r.arcs.map Arc.ends).Nodup →
      ((as.foldl add r).arcs.map Arc.ends).Nodup from h {} (by simp)
  induction as with
  | nil => intro r h; exact h
  | cons a as ih => intro r h; exact ih (r.add a) (nodup_ends_add a h)

end Route

end HoldMargin
