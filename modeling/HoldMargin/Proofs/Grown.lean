import HoldMargin.Proofs.Reached
import HoldMargin.Proofs.Sought
import HoldMargin.Router.Maze
/-!
# How the maze router grows a route

A route is grown by a path from a root or from a node of the route to the
node of a sink, and the path enters nothing that the route touches already
(`Device.Extends`). The nodes to be avoided are no sources, but they are
closed instead, so a path cannot come back to them; the target alone is
never closed, which is why it must not be one of the nodes to be avoided.
-/

namespace HoldMargin

/-- **A path that extends a route** to the node `target`. -/
structure Device.Extends (d : Device) (es : EdgeSet) (roots : NodeSet) (source : NodeId)
    (path : List EdgeId) (target : NodeId) : Prop where
  grows : d.Grows es source path target
  attached : source ∈ roots ∨ d.Touches es source
  no_root : ∀ n ∈ d.entered path, n ∉ roots

/-- **Edges that serve a node:** none, if the route leads there as it stands,
or a path that extends it. -/
def Device.Serves (d : Device) (es : EdgeSet) (roots : NodeSet) (path : List EdgeId)
    (target : NodeId) : Prop :=
  path = [] ∧ d.Supplies es roots target ∨ ∃ source, d.Extends es roots source path target

/-- The search for a path of a net: what is to be avoided is closed, and so is what other
nets use. -/
def Occupancy.pathQuery (o : Occupancy) (net : NetId) (avoid sources : NodeSet) (target : NodeId) :
    PathQuery where
  sources
  target
  isClosed := fun n => n ∈ avoid || o.isClosedTo n net

namespace Placement

variable {p : Placement} {limit : Nat} {o : Occupancy} {r : Routing} {net : NetId}
  {avoid roots : NodeSet} {sink : PinId} {target : NodeId} {path : List EdgeId}

/-- **A search for a sink** may start at the roots and at the nodes of the route
that are not to be avoided. -/
theorem pathQuery_eq_ok {query : PathQuery} (h : p.pathQuery o r net avoid target = .ok query) :
    (∃ route, p.routeOfNet r net = .ok route) ∧ ∃ roots, p.rootsOfNet net = .ok roots ∧
      query.target = target ∧
      ∀ n, n ∈ query.sources ↔ n ∈ roots ∨ p.device.Touches (r.of net) n ∧ n ∉ avoid := by
  obtain ⟨route, hroute, h⟩ := bind_eq_ok.mp h
  obtain ⟨roots, hroots, h⟩ := bind_eq_ok.mp h
  cases h
  refine ⟨⟨route, hroute⟩, roots, hroots, rfl, fun n => ?_⟩
  rw [IdSet.mem_union, List.mem_filter, (draws_of_routeOfNet hroute).mem_nodes_iff,
    decide_eq_true_eq]

/-- What the router searches for is a path of the net, from nodes of its choice. -/
theorem exists_eq_occupancyPathQuery {query : PathQuery}
    (h : p.pathQuery o r net avoid target = .ok query) :
    ∃ sources, query = o.pathQuery net avoid sources target := by
  obtain ⟨route, -, h⟩ := bind_eq_ok.mp h
  obtain ⟨roots, -, h⟩ := bind_eq_ok.mp h
  cases h
  exact ⟨_, rfl⟩

/-- What is closed to a search is to be avoided or used by other nets. -/
theorem isClosed_of_pathQuery {query : PathQuery}
    (h : p.pathQuery o r net avoid target = .ok query) (n : NodeId) :
    query.isClosed n = (decide (n ∈ avoid) || o.isClosedTo n net) := by
  obtain ⟨sources, rfl⟩ := exists_eq_occupancyPathQuery h
  rfl

/-- **Where a path for a sink may go:** it enters no root, and no node of the route unless
that is to be avoided; and only the node of the sink may be one that is to be avoided or
that other nets use. -/
theorem entered_of_search {query : PathQuery} {n : NodeId} (hd : p.device.Ready)
    (hq : p.pathQuery o r net avoid target = .ok query)
    (h : query.search p.device limit = .ok path) (hn : n ∈ p.device.entered path) :
    (∀ roots, p.rootsOfNet net = .ok roots → n ∉ roots) ∧
      (p.device.Touches (r.of net) n → n ∈ avoid) ∧
      (n = target ∨ n ∉ avoid ∧ o.isClosedTo n net = false) := by
  obtain ⟨-, roots, hroots, htarget, hsources⟩ := pathQuery_eq_ok hq
  obtain ⟨source, -, -, -, hmay⟩ := PathQuery.search_eq_ok hd h
  obtain ⟨hfresh, hopen⟩ := PathQuery.mayEnter_iff.mp (hmay n hn)
  rw [hsources, not_or] at hfresh
  rw [htarget, isClosed_of_pathQuery hq, Bool.or_eq_false_iff, decide_eq_false_iff_not] at hopen
  refine ⟨fun roots' hroots' => ?_, fun ht => ?_, hopen⟩
  · rw [hroots, Except.ok.injEq] at hroots'
    exact hroots' ▸ hfresh.1
  · exact Classical.byContradiction fun hno => hfresh.2 ⟨ht, hno⟩

/-- **What a search finds extends the route.** -/
theorem extends_of_search {query : PathQuery} (hd : p.device.Ready)
    (hq : p.pathQuery o r net avoid target = .ok query) (hroots : p.rootsOfNet net = .ok roots)
    (havoid : target ∉ avoid) (h : query.search p.device limit = .ok path) :
    ∃ source, p.device.Extends (r.of net) roots source path target := by
  obtain ⟨-, roots', hroots', htarget, hsources⟩ := pathQuery_eq_ok hq
  rw [hroots, Except.ok.injEq] at hroots'
  subst hroots'
  obtain ⟨source, hsource, hpath, hnodup, -⟩ := PathQuery.search_eq_ok hd h
  rw [htarget] at hpath
  have hfresh : ∀ n ∈ p.device.entered path, n ∉ roots ∧ ¬ p.device.Touches (r.of net) n := by
    intro n hn
    obtain ⟨hroot, hback, hend⟩ := entered_of_search hd hq h hn
    refine ⟨hroot roots hroots, fun ht => ?_⟩
    -- only the target may be entered where it is to be avoided
    rcases hend with rfl | ⟨hno, -⟩
    · exact havoid (hback ht)
    · exact hno (hback ht)
  exact ⟨source, ⟨hpath, hnodup, fun n hn => (hfresh n hn).2⟩,
    ((hsources source).mp hsource).imp id And.left, fun n hn => (hfresh n hn).1⟩

/-- **What is sought for a sink**: nothing, if it is routed, or else what a search
finds. -/
theorem pathToSink_cases (h : p.pathToSink limit o r net avoid sink = .ok path) :
    path = [] ∧ p.isRouted r net sink = .ok true ∨
      ∃ target query, p.pinNode sink = .ok target ∧
        p.pathQuery o r net avoid target = .ok query ∧ query.search p.device limit = .ok path := by
  obtain ⟨routed, hrouted, h⟩ := bind_eq_ok.mp h
  have hrouted := mapError_eq_ok hrouted
  cases routed with
  | true =>
    cases h
    exact .inl ⟨rfl, hrouted⟩
  | false =>
    obtain ⟨target, htarget, h⟩ := bind_eq_ok.mp h
    obtain ⟨query, hq, h⟩ := bind_eq_ok.mp h
    exact .inr ⟨target, query, mapError_eq_ok htarget, mapError_eq_ok hq, mapError_eq_ok h⟩

/-- **What is committed for a sink serves its node.** -/
theorem pathToSink_eq_ok (hd : p.device.Ready) (htarget : p.pinNode sink = .ok target)
    (hroots : p.rootsOfNet net = .ok roots) (havoid : target ∉ avoid)
    (h : p.pathToSink limit o r net avoid sink = .ok path) :
    p.device.Serves (r.of net) roots path target := by
  rcases pathToSink_cases h with ⟨rfl, hrouted⟩ | ⟨n, query, hn, hq, h⟩
  · obtain ⟨n, -, roots', hn, -, hroots', hs⟩ := isRouted_eq_ok_true.mp hrouted
    rw [htarget, Except.ok.injEq] at hn
    rw [hroots, Except.ok.injEq] at hroots'
    subst hn
    subst hroots'
    exact .inl ⟨rfl, hs⟩
  · rw [htarget, Except.ok.injEq] at hn
    subst hn
    exact .inr (extends_of_search hd hq hroots havoid h)

end Placement

variable {p : Placement} {net : NetId} {avoid roots : NodeSet} {sink : PinId} {target : NodeId}

/-- **What the maze router answers when asked for one sink:** a failure and
the routing as it was, or success and edges that serve the sink. -/
theorem mazeRouter_route (limit : Nat) (r : Routing) (hd : p.device.Ready)
    (htarget : p.pinNode sink = .ok target) (hroots : p.rootsOfNet net = .ok roots)
    (havoid : target ∉ avoid) :
    let reply := (mazeRouter limit).route p () r { net, sinks := [sink], avoid }
    (∃ e, reply.outcome = .error e) ∧ reply.routing = r ∨
      reply.outcome = .ok () ∧ ∃ path, reply.routing = r.set net ((r.of net).union path) ∧
        p.device.Serves (r.of net) roots path target := by
  intro reply
  simp only [reply, mazeRouter]
  split
  · exact .inl ⟨⟨_, rfl⟩, rfl⟩
  · rename_i o _
    rw [Placement.routeSinks]
    split
    · rename_i e _
      exact .inl ⟨⟨e, rfl⟩, rfl⟩
    · rename_i path hpath
      exact .inr ⟨rfl, path, rfl, Placement.pathToSink_eq_ok hd htarget hroots havoid hpath⟩

end HoldMargin
