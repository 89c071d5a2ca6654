import HoldMargin.Proofs.Listed
/-!
# The index of a device that was built

A device is built call by call (`Device.BuildCall`), and its index grows with
its tables. It could as well be made from the finished tables. For pins the
two are the same in any case; for edges they are the same exactly if no edge
was added before the nodes at its ends (`Device.build_agrees_iff`). An edge
that comes too early is in the table and the device is valid in the end, but
there was no list to enter it in, and a list that lags behind the table never
catches up: every call adds to both or to the table alone (`Lags.addEdge`).

What holds of the edges that leave a node holds of those that enter one, so
the lists are looked at for either end of an edge, `tip`.
-/

namespace HoldMargin

namespace Device

/-- The edges listed at a node. -/
def listedAt (lists : Array (Array EdgeId)) (n : NodeId) : List EdgeId :=
  (lists.getD n.index #[]).toList

/-- The edges of a table that have their `tip` at a node, in the order of the
table. -/
def edgesAt (tip : Edge → NodeId) (es : List Edge) (n : NodeId) : List EdgeId :=
  (es.filter (tip · = n)).map Edge.id

section Lists

variable {lists : Array (Array EdgeId)} {tip : Edge → NodeId} {es : List Edge} {e : Edge}
  {n : NodeId}

theorem downhill_eq (d : Device) (n : NodeId) : d.downhill n = listedAt d.index.downhill n := rfl

theorem uphill_eq (d : Device) (n : NodeId) : d.uphill n = listedAt d.index.uphill n := rfl

@[simp] theorem edgesAt_nil : edgesAt tip [] n = [] := rfl

theorem edgesAt_append (es' : List Edge) :
    edgesAt tip (es ++ es') n = edgesAt tip es n ++ edgesAt tip es' n := by
  simp [edgesAt]

theorem edgesAt_singleton : edgesAt tip [e] n = if tip e = n then [e.id] else [] := by
  by_cases h : tip e = n <;> simp [edgesAt, h]

theorem edgesAt_cons :
    edgesAt tip (e :: es) n = (if tip e = n then [e.id] else []) ++ edgesAt tip es n := by
  rw [← edgesAt_singleton, ← edgesAt_append, List.singleton_append]

/-- A new node has no edges yet. -/
theorem listedAt_push : listedAt (lists.push #[]) n = listedAt lists n := by
  simp only [listedAt, Array.getD_eq_getD_getElem?, Array.getElem?_push]
  split
  · rename_i h
    rw [Array.getElem?_eq_none (Nat.le_of_eq h.symm)]
    rfl
  · rfl

theorem listedAt_modify (k : NodeId) (id : EdgeId) :
    listedAt (lists.modify k.index (·.push id)) n =
      listedAt lists n ++ if k = n ∧ k.index < lists.size then [id] else [] := by
  simp only [listedAt, Array.getD_eq_getD_getElem?, Array.getElem?_modify]
  by_cases hk : k = n
  · subst hk
    by_cases hlt : k.index < lists.size
    · simp [hlt]
    · simp [hlt]
  · have hindex : k.index ≠ n.index := fun h => hk (TableId.ext_index h)
    simp [hk, hindex]

/-- **Lists that may lag behind a table** of edges: one for each node, and each
with no more than the edges of the table. -/
structure Lags (tip : Edge → NodeId) (nodes : Nat) (es : List Edge)
    (lists : Array (Array EdgeId)) : Prop where
  size : lists.size = nodes
  sublist : ∀ n, (listedAt lists n).Sublist (edgesAt tip es n)

/-- **Lists that are complete**: they have all edges of a table. -/
def Complete (tip : Edge → NodeId) (es : List Edge) (lists : Array (Array EdgeId)) : Prop :=
  ∀ n, listedAt lists n = edgesAt tip es n

/-- The lists of a table of nodes, with all edges entered in turn. -/
theorem listedAt_foldl (es : List Edge) (lists : Array (Array EdgeId)) (n : NodeId) :
    listedAt (es.foldl (fun lists e => lists.modify (tip e).index (·.push e.id)) lists) n =
      listedAt lists n ++ if n.index < lists.size then edgesAt tip es n else [] := by
  induction es generalizing lists with
  | nil => simp
  | cons e es ih =>
    rw [List.foldl_cons, ih, listedAt_modify, Array.size_modify, List.append_assoc, edgesAt_cons]
    congr 1
    by_cases he : tip e = n
    · subst he
      by_cases hlt : (tip e).index < lists.size <;> simp [hlt]
    · simp [he]

theorem Lags.addNode {nodes : Nat} (h : Lags tip nodes es lists) :
    Lags tip (nodes + 1) es (lists.push #[]) where
  size := by rw [Array.size_push, h.size]
  sublist n := by
    rw [listedAt_push]
    exact h.sublist n

theorem complete_push_iff : Complete tip es (lists.push #[]) ↔ Complete tip es lists := by
  unfold Complete
  simp only [listedAt_push]

theorem Lags.addEdge {nodes : Nat} (h : Lags tip nodes es lists) (e : Edge) :
    Lags tip nodes (es ++ [e]) (lists.modify (tip e).index (·.push e.id)) where
  size := by rw [Array.size_modify, h.size]
  sublist n := by
    rw [listedAt_modify, edgesAt_append, edgesAt_singleton]
    refine (h.sublist n).append ?_
    by_cases he : tip e = n
    · rw [if_pos he]
      split
      · exact List.Sublist.refl _
      · exact List.nil_sublist _
    · rw [if_neg fun hlt => he hlt.1]
      exact List.nil_sublist _

/-- **An edge completes the lists** exactly if they were complete before and
there is a list to enter it in. -/
theorem Lags.complete_addEdge_iff {nodes : Nat} (h : Lags tip nodes es lists) (e : Edge) :
    Complete tip (es ++ [e]) (lists.modify (tip e).index (·.push e.id)) ↔
      Complete tip es lists ∧ (tip e).index < nodes := by
  rw [← h.size]
  constructor
  · intro hc
    have hlt : (tip e).index < lists.size := by
      refine Nat.lt_of_not_le fun hge => ?_
      -- the list of the node stays behind the table
      have hlength := congrArg List.length (hc (tip e))
      rw [listedAt_modify, edgesAt_append, edgesAt_singleton,
        if_neg fun hlt => Nat.not_lt.mpr hge hlt.2, if_pos rfl, List.append_nil,
        List.length_append, List.length_singleton] at hlength
      have hle := (h.sublist (tip e)).length_le
      omega
    refine ⟨fun n => ?_, hlt⟩
    have hn := hc n
    rw [listedAt_modify, edgesAt_append, edgesAt_singleton] at hn
    by_cases he : tip e = n
    · rw [if_pos ⟨he, hlt⟩, if_pos he] at hn
      exact List.append_cancel_right hn
    · rw [if_neg fun hlt => he hlt.1, if_neg he, List.append_nil, List.append_nil] at hn
      exact hn
  · rintro ⟨hc, hlt⟩ n
    rw [listedAt_modify, edgesAt_append, edgesAt_singleton, hc n]
    by_cases he : tip e = n
    · rw [if_pos ⟨he, hlt⟩, if_pos he]
    · rw [if_neg fun hlt => he hlt.1, if_neg he]

end Lists

/-! ## The index made from the tables -/

/-- The nodes of pins as a list of bindings leaves them. -/
def nodesOfPins (bs : List PinBinding) : Std.TreeMap SitePin NodeId :=
  bs.foldl (fun nodes b => nodes.insert b.pin b.node) ∅

theorem pinNodes_foldl_bind (bs : List PinBinding) (ix : DeviceIndex) :
    (bs.foldl DeviceIndex.bind ix).pinNodes =
      bs.foldl (fun nodes b => nodes.insert b.pin b.node) ix.pinNodes := by
  induction bs generalizing ix with
  | nil => rfl
  | cons b bs ih => exact ih (ix.bind b)

theorem uphill_foldl_bind (bs : List PinBinding) (ix : DeviceIndex) :
    (bs.foldl DeviceIndex.bind ix).uphill = ix.uphill := by
  induction bs generalizing ix with
  | nil => rfl
  | cons b bs ih => exact ih (ix.bind b)

/-- Entering edges enters them in both lists, and binds no pins. -/
theorem foldl_addEdge (es : List Edge) (ix : DeviceIndex) :
    es.foldl (fun ix e => ix.addEdge e.id e.src e.dst) ix = { ix with
      downhill := es.foldl (fun lists e => lists.modify e.src.index (·.push e.id)) ix.downhill
      uphill := es.foldl (fun lists e => lists.modify e.dst.index (·.push e.id)) ix.uphill } := by
  induction es generalizing ix with
  | nil => rfl
  | cons e es ih => exact ih (ix.addEdge e.id e.src e.dst)

variable {d : Device}

/-- **The index of the tables binds each pin as its last binding says.** -/
theorem pinNodes_indexOfTables (d : Device) :
    d.indexOfTables.pinNodes = nodesOfPins d.pinBindings.toList := by
  simp only [indexOfTables, ← Array.foldl_toList]
  rw [pinNodes_foldl_bind, foldl_addEdge]
  rfl

/-- **The index of the tables lists all edges**, on a valid device. -/
theorem complete_indexOfTables (h : d.validate = .ok ()) :
    Complete Edge.src d.edges.toList d.indexOfTables.downhill ∧
      Complete Edge.dst d.edges.toList d.indexOfTables.uphill := by
  have hlists : ∀ (tip : Edge → NodeId), (∀ e ∈ d.edges, (tip e).index < d.nodes.size) →
      Complete tip d.edges.toList (d.edges.toList.foldl
        (fun lists e => lists.modify (tip e).index (·.push e.id))
        (.replicate d.nodes.size #[])) := by
    intro tip htip n
    rw [listedAt_foldl, Array.size_replicate]
    have hempty : listedAt (.replicate d.nodes.size #[]) n = [] := by
      simp only [listedAt, Array.getD_eq_getD_getElem?, Array.getElem?_replicate]
      split <;> rfl
    rw [hempty, List.nil_append]
    split
    · rfl
    · rename_i hn
      -- no edge has its tip outside the table of nodes
      have hnone : d.edges.toList.filter (tip · = n) = [] := by
        refine List.filter_eq_nil_iff.mpr fun e he heq => hn ?_
        rw [← of_decide_eq_true heq]
        exact htip e (Array.mem_toList_iff.mp he)
      rw [edgesAt, hnone, List.map_nil]
  have hends := fun e he => ends_lt_of_validate (e := e) h he
  simp only [indexOfTables, ← Array.foldl_toList]
  rw [DeviceIndex.downhill_foldl_bind, uphill_foldl_bind, foldl_addEdge]
  exact ⟨hlists Edge.src fun e he => (hends e he).1, hlists Edge.dst fun e he => (hends e he).2⟩

/-! ## Building -/

/-- A call that adds something to a device. -/
inductive BuildCall where
  | addTile (name : String) (col row : UInt32) (type : TileType) (region : ClockRegion)
  | addSite (name : String) (tile : TileId)
  | chainCarry (site next : SiteId)
  | addNode (name : String) (tile : TileId) (kind : NodeKind) (ownLength : Option UInt32)
  | addEdge (src dst : NodeId)
  | bindPin (pin : SitePin) (node : NodeId)

namespace BuildCall

/-- The device after a call. -/
def apply (d : Device) : BuildCall → Device
  | addTile name col row type region => (d.addTile name col row type region).1
  | addSite name tile => (d.addSite name tile).1
  | chainCarry site next => d.chainCarry site next
  | addNode name tile kind ownLength => (d.addNode name tile kind ownLength).1
  | addEdge src dst => (d.addEdge src dst).1
  | bindPin pin node => d.bindPin pin node

/-- Whether a call comes after the nodes that it joins by an edge. -/
def ComesAfterEnds (d : Device) : BuildCall → Prop
  | addEdge src dst => src.index < d.nodes.size ∧ dst.index < d.nodes.size
  | _ => True

instance (d : Device) : (call : BuildCall) → Decidable (call.ComesAfterEnds d)
  | addEdge src dst =>
    inferInstanceAs (Decidable (src.index < d.nodes.size ∧ dst.index < d.nodes.size))
  | addTile .. | addSite .. | chainCarry .. | addNode .. | bindPin .. =>
    inferInstanceAs (Decidable True)

end BuildCall

/-- The device that calls build, from one without entries. -/
def build (name : String) (calls : List BuildCall) : Device :=
  calls.foldl BuildCall.apply { name }

/-- **Calls that build from the nodes up**: no edge is added before the nodes at
its ends. -/
def NodesFirst (d : Device) : List BuildCall → Prop
  | [] => True
  | call :: calls => call.ComesAfterEnds d ∧ NodesFirst (call.apply d) calls

instance decidableNodesFirst : (d : Device) → (calls : List BuildCall) →
    Decidable (NodesFirst d calls)
  | _, [] => inferInstanceAs (Decidable True)
  | d, call :: calls =>
    have := decidableNodesFirst (call.apply d) calls
    inferInstanceAs (Decidable (call.ComesAfterEnds d ∧ NodesFirst (call.apply d) calls))

/-- **A device under construction**: its lists may lag behind the table of edges,
and its pins are bound as the table says. -/
structure Growing (d : Device) : Prop where
  downhill : Lags Edge.src d.nodes.size d.edges.toList d.index.downhill
  uphill : Lags Edge.dst d.nodes.size d.edges.toList d.index.uphill
  pins : d.index.pinNodes = nodesOfPins d.pinBindings.toList

/-- A device whose lists have all its edges. -/
def Listed (d : Device) : Prop :=
  Complete Edge.src d.edges.toList d.index.downhill ∧
    Complete Edge.dst d.edges.toList d.index.uphill

theorem growing_empty (name : String) : Growing { name } where
  downhill := ⟨rfl, fun _ => .refl _⟩
  uphill := ⟨rfl, fun _ => .refl _⟩
  pins := rfl

theorem listed_empty (name : String) : Listed { name } := ⟨fun _ => rfl, fun _ => rfl⟩

/-- **A call keeps a device under construction.** -/
theorem Growing.apply (h : d.Growing) (call : BuildCall) : (call.apply d).Growing := by
  cases call with
  | addTile | addSite | chainCarry => exact ⟨h.downhill, h.uphill, h.pins⟩
  | addNode name tile kind ownLength =>
    refine ⟨?_, ?_, h.pins⟩
    · simpa [BuildCall.apply, Device.addNode, DeviceIndex.addNode] using h.downhill.addNode
    · simpa [BuildCall.apply, Device.addNode, DeviceIndex.addNode] using h.uphill.addNode
  | addEdge src dst =>
    let e : Edge := { id := .ofIndex d.edges.size, src, dst }
    refine ⟨?_, ?_, h.pins⟩
    · simpa [BuildCall.apply, Device.addEdge, DeviceIndex.addEdge] using h.downhill.addEdge e
    · simpa [BuildCall.apply, Device.addEdge, DeviceIndex.addEdge] using h.uphill.addEdge e
  | bindPin pin node =>
    refine ⟨h.downhill, h.uphill, ?_⟩
    simp [BuildCall.apply, Device.bindPin, DeviceIndex.bind, nodesOfPins, h.pins]

/-- **A call leaves all edges listed** exactly if they were, and the call comes
after the ends of its edge. -/
theorem Growing.listed_apply_iff (h : d.Growing) (call : BuildCall) :
    (call.apply d).Listed ↔ d.Listed ∧ call.ComesAfterEnds d := by
  cases call with
  | addTile | addSite | chainCarry | bindPin => exact (and_iff_left trivial).symm
  | addNode name tile kind ownLength =>
    simp only [BuildCall.apply, Device.addNode, DeviceIndex.addNode, Listed, complete_push_iff,
      BuildCall.ComesAfterEnds, and_true]
  | addEdge src dst =>
    let e : Edge := { id := .ofIndex d.edges.size, src, dst }
    have hdown := h.downhill.complete_addEdge_iff e
    have hup := h.uphill.complete_addEdge_iff e
    simp only [BuildCall.apply, Device.addEdge, DeviceIndex.addEdge, Listed,
      BuildCall.ComesAfterEnds, Array.toList_push]
    rw [hdown, hup]
    exact and_and_and_comm

/-- **Calls leave all edges listed** exactly if they were, and the calls build from
the nodes up. -/
theorem Growing.listed_foldl_iff (h : d.Growing) (calls : List BuildCall) :
    (calls.foldl BuildCall.apply d).Growing ∧
      ((calls.foldl BuildCall.apply d).Listed ↔ d.Listed ∧ NodesFirst d calls) := by
  induction calls generalizing d with
  | nil => exact ⟨h, (and_iff_left trivial).symm⟩
  | cons call calls ih =>
    obtain ⟨hgrowing, hlisted⟩ := ih (h.apply call)
    refine ⟨hgrowing, ?_⟩
    rw [List.foldl_cons, hlisted, h.listed_apply_iff, NodesFirst, and_assoc]

/-- **The index kept while building and the one made from the finished tables:**
on a valid device they bind all pins alike, whatever the order of the calls,
and they list the same edges at every node exactly if no edge was added before
the nodes at its ends. -/
theorem build_agrees_iff (name : String) (calls : List BuildCall)
    (hvalid : (build name calls).validate = .ok ()) :
    (∀ pin, (build name calls).reindex.pinNode? pin = (build name calls).pinNode? pin) ∧
      ((∀ n, (build name calls).reindex.downhill n = (build name calls).downhill n ∧
          (build name calls).reindex.uphill n = (build name calls).uphill n) ↔
        NodesFirst { name } calls) := by
  obtain ⟨hgrowing, hlisted⟩ := (growing_empty name).listed_foldl_iff calls
  obtain ⟨hdown, hup⟩ := complete_indexOfTables hvalid
  refine ⟨fun pin => ?_, ?_⟩
  · have hpins := hgrowing.pins
    rw [pinNode?, pinNode?, reindex, pinNodes_indexOfTables]
    exact congrArg (·[pin]?) hpins.symm
  · rw [← and_iff_right (listed_empty name) (b := NodesFirst _ _), ← hlisted, Listed, Complete,
      Complete, ← forall_and]
    refine forall_congr' fun n => and_congr ?_ ?_
    · rw [downhill_eq, reindex, hdown n]
      exact eq_comm
    · rw [uphill_eq, reindex, hup n]
      exact eq_comm

/-- Two nodes, an edge each way, and a pin that is bound before there is a node
and bound again in the end. -/
def edgesAfterNodes : List BuildCall := [
  .bindPin ⟨.ofIndex 0, "A"⟩ (.ofIndex 0),
  .addTile "INT" 0 0 .interconnect ⟨0, 0⟩,
  .addSite "S" (.ofIndex 0),
  .addNode "a" (.ofIndex 0) .single none,
  .addNode "b" (.ofIndex 0) .long (some 6),
  .addEdge (.ofIndex 0) (.ofIndex 1),
  .addEdge (.ofIndex 1) (.ofIndex 0),
  .bindPin ⟨.ofIndex 0, "A"⟩ (.ofIndex 1)]

theorem edgesAfterNodes_agrees :
    (build "d" edgesAfterNodes).validate = .ok () ∧ NodesFirst { name := "d" } edgesAfterNodes ∧
      (∀ pin, (build "d" edgesAfterNodes).reindex.pinNode? pin =
        (build "d" edgesAfterNodes).pinNode? pin) ∧
      ∀ n, (build "d" edgesAfterNodes).reindex.downhill n =
          (build "d" edgesAfterNodes).downhill n ∧
        (build "d" edgesAfterNodes).reindex.uphill n = (build "d" edgesAfterNodes).uphill n := by
  have hvalid : (build "d" edgesAfterNodes).validate = .ok () :=
    validate_eq_ok.mpr (by decide +kernel)
  have hfirst : NodesFirst { name := "d" } edgesAfterNodes := by decide +kernel
  obtain ⟨hpins, hagrees⟩ := build_agrees_iff "d" edgesAfterNodes hvalid
  exact ⟨hvalid, hfirst, hpins, hagrees.mpr hfirst⟩

/-- An edge that is added before its nodes. -/
def edgeBeforeNodes : List BuildCall := [
  .addTile "INT" 0 0 .interconnect ⟨0, 0⟩,
  .addEdge (.ofIndex 0) (.ofIndex 1),
  .addNode "a" (.ofIndex 0) .single none,
  .addNode "b" (.ofIndex 0) .single none]

/-- **An edge that comes too early is listed only after the index has been made
again**, though the device is valid. -/
theorem edgeBeforeNodes_unlisted :
    (build "d" edgeBeforeNodes).validate = .ok () ∧
      (build "d" edgeBeforeNodes).downhill (.ofIndex 0) = [] ∧
      (build "d" edgeBeforeNodes).reindex.downhill (.ofIndex 0) = [.ofIndex 0] :=
  ⟨validate_eq_ok.mpr (by decide +kernel), by decide +kernel, by decide +kernel⟩

end Device

end HoldMargin
