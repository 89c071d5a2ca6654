import HoldMargin.Proofs.Apart
import HoldMargin.Proofs.Measured
import HoldMargin.Report
import Mathlib.Algebra.BigOperators.Group.Finset.Basic
/-!
# What usage counts

Tallies and usages are added in any order and any grouping: both are commutative
monoids, and recording a node is adding the usage of that node (`Usage.record_eq_add`).
So the usage of a list of nodes is a sum over the list (`Usage.ofList_eq_sum`), and that
of a design one over its nets. A route lists each of its nodes once, whatever edges share
it, and that makes the sum over the list of a route one over a set: the fabric nodes at
the ends of the committed edges of the net (`Placement.usedNodes`), whether a driver
leads there or not. What is recorded is recorded in total and for its kind alike, so the
rows of a report add up to its totals (`Usage.Balanced`).
-/

namespace HoldMargin

/-! ## Sums of usage -/

namespace Tally

instance : Add Tally := ⟨add⟩

instance : Zero Tally := ⟨{}⟩

instance : AddCommMonoid Tally where
  add_assoc := add_assoc
  zero_add := zero_add
  add_zero := add_zero
  add_comm := add_comm
  nsmul := nsmulRec

/-- The number of nodes of a sum. -/
def nodesHom : Tally →+ Nat := ⟨⟨nodes, rfl⟩, fun _ _ => rfl⟩

/-- The length of a sum. -/
def lengthHom : Tally →+ Nat := ⟨⟨length, rfl⟩, fun _ _ => rfl⟩

theorem nodes_sum (ts : List Tally) : ts.sum.nodes = (ts.map nodes).sum :=
  map_list_sum nodesHom ts

theorem length_sum (ts : List Tally) : ts.sum.length = (ts.map length).sum :=
  map_list_sum lengthHom ts

end Tally

namespace Usage

variable {u v : Usage} {k : NodeKind}

instance : Add Usage := ⟨merge⟩

instance : Zero Usage := ⟨{}⟩

theorem merge_eq_add (u v : Usage) : u.merge v = u + v := rfl

theorem total_add (u v : Usage) : (u + v).total = u.total + v.total := rfl

theorem ofKind_zero (k : NodeKind) : ofKind 0 k = 0 := ofKind_empty k

theorem ofKind_add (u v : Usage) (k : NodeKind) : (u + v).ofKind k = u.ofKind k + v.ofKind k :=
  ofKind_merge u v k

instance : AddCommMonoid Usage where
  add_assoc := merge_assoc
  zero_add u := ext_ofKind (zero_add u.total) fun k => by rw [ofKind_add, ofKind_zero, zero_add]
  add_zero u := ext_ofKind (add_zero u.total) fun k => by rw [ofKind_add, ofKind_zero, add_zero]
  add_comm := merge_comm
  nsmul := nsmulRec

/-- The nodes of all kinds in a sum. -/
def totalHom : Usage →+ Tally := ⟨⟨total, rfl⟩, fun _ _ => rfl⟩

/-- The nodes of one kind in a sum. -/
def ofKindHom (k : NodeKind) : Usage →+ Tally :=
  ⟨⟨(ofKind · k), ofKind_zero k⟩, fun u v => ofKind_add u v k⟩

theorem total_sum (us : List Usage) : us.sum.total = (us.map total).sum :=
  map_list_sum totalHom us

theorem ofKind_sum (us : List Usage) (k : NodeKind) :
    us.sum.ofKind k = (us.map (ofKind · k)).sum :=
  map_list_sum (ofKindHom k) us

/-- The usage of one node. -/
def node (k : NodeKind) (length : Nat) : Usage := record {} k length

/-- **To record a node is to add its usage.** -/
theorem record_eq_add (u : Usage) (k : NodeKind) (length : Nat) :
    u.record k length = u + node k length := by
  rw [node, ← merge_eq_add, merge_record]
  exact congrArg (record · k length) (add_zero u).symm

/-- The usage of nodes that are recorded one by one. -/
def ofList (nodes : List (NodeKind × Nat)) : Usage :=
  nodes.foldl (fun u n => u.record n.1 n.2) {}

theorem ofList_eq_sum (nodes : List (NodeKind × Nat)) :
    ofList nodes = (nodes.map fun n => node n.1 n.2).sum := by
  simp only [ofList, record_eq_add]
  rw [List.sum_eq_foldl, List.foldl_map]
  rfl

/-- **Nodes may be recorded in any order, and in parts that are merged later.** -/
theorem merge_ofList {xs ys zs : List (NodeKind × Nat)} (h : zs.Perm (xs ++ ys)) :
    (ofList xs).merge (ofList ys) = ofList zs := by
  have hsum := (h.map fun n => node n.1 n.2).sum_eq
  rw [merge_eq_add, ofList_eq_sum, ofList_eq_sum, ofList_eq_sum, hsum, List.map_append,
    List.sum_append]

/-! ## Rows and totals -/

/-- **A usage whose total is that of its kinds**, and in which a kind without nodes has
no length. -/
structure Balanced (u : Usage) : Prop where
  total : u.total = (NodeKind.all.map u.ofKind).sum
  unused : ∀ k, (u.ofKind k).nodes = 0 → u.ofKind k = 0

theorem balanced_zero : Balanced 0 where
  total := by decide
  unused k _ := ofKind_zero k

theorem Balanced.add (hu : u.Balanced) (hv : v.Balanced) : (u + v).Balanced where
  total := by
    rw [total_add, hu.total, hv.total, ← List.sum_map_add, funext (ofKind_add u v)]
  unused k h := by
    rw [ofKind_add] at h ⊢
    have hnodes : (u.ofKind k).nodes + (v.ofKind k).nodes = 0 := h
    rw [hu.unused k (by omega), hv.unused k (by omega), add_zero]

theorem balanced_node (k : NodeKind) (length : Nat) : (node k length).Balanced where
  total := by
    have hkind : ∀ j, (node k length).ofKind j = if k = j then ⟨1, length⟩ else 0 := fun j => by
      rw [node, ofKind_record, ofKind_empty, Tally.zero_add]
      rfl
    rw [funext hkind]
    cases k <;> exact (Tally.zero_add _).trans (by simp [NodeKind.all])
  unused j h := by
    rw [node, ofKind_record, ofKind_empty] at h ⊢
    split at h
    · cases h
    · rename_i hne
      rw [if_neg hne]
      rfl

theorem Balanced.record (hu : u.Balanced) (k : NodeKind) (length : Nat) :
    (u.record k length).Balanced :=
  record_eq_add u k length ▸ hu.add (balanced_node k length)

theorem balanced_sum {us : List Usage} (h : ∀ u ∈ us, u.Balanced) : us.sum.Balanced := by
  induction us with
  | nil => exact balanced_zero
  | cons u us ih =>
    rw [List.sum_cons]
    exact (h u List.mem_cons_self).add (ih fun v hv => h v (List.mem_cons_of_mem _ hv))

/-- **The rows of a report add up to its totals.** -/
theorem Balanced.sum_rows (h : u.Balanced) : (u.rows.map Prod.snd).sum = u.total := by
  rw [h.total, rows]
  induction NodeKind.all with
  | nil => rfl
  | cons k ks ih =>
    rw [List.map_cons, List.map_cons, List.sum_cons, List.filter_cons]
    split
    · rw [List.map_cons, List.sum_cons, ih]
    · rename_i hzero
      rw [ih, h.unused k (by simpa using hzero), zero_add]

end Usage

/-! ## The nodes of a route -/

theorem nodup_eraseDups {α : Type} [BEq α] [LawfulBEq α] (as : List α) : as.eraseDups.Nodup := by
  induction h : as.length using Nat.strong_induction_on generalizing as with
  | _ n ih =>
    cases as with
    | nil => exact List.nodup_nil
    | cons a as =>
      have hlt : (as.filter fun b => !b == a).length < n := by
        rw [← h, List.length_cons]
        exact Nat.lt_succ_of_le (List.length_filter_le _ _)
      rw [List.eraseDups_cons, List.nodup_cons]
      exact ⟨by simp [List.mem_eraseDups], ih _ hlt _ rfl⟩

/-- **A route lists each of its nodes once.** -/
theorem Route.nodup_nodes (r : Route) : r.nodes.Nodup := nodup_eraseDups _

/-- A node as a tally counts it. -/
def Device.tallyOf (d : Device) (n : NodeId) : Tally := ⟨1, (d.lengthOf? n).getD 0⟩

section Visits

variable {d : Device} {net : String} {ns : List NodeId} {u u' : Usage} {n : NodeId}

/-- What visiting a node records: nothing, if it is outside the fabric. -/
theorem Usage.visit_eq_ok (h : u.visit d net n = .ok u') :
    d.isFabric n = false ∧ u' = u ∨ d.isFabric n = true ∧ ∃ k l, d.kindOf? n = some k ∧
      d.tallyOf n = ⟨1, l⟩ ∧ u' = u.record k l := by
  unfold Usage.visit at h
  split at h
  · rename_i node hnode
    cases hf : d.isFabric n with
    | false =>
      simp only [hf, Bool.false_eq_true, if_false, Except.ok.injEq] at h
      exact .inl ⟨rfl, h.symm⟩
    | true =>
      simp only [hf, if_true, Except.ok.injEq] at h
      refine .inr ⟨rfl, node.kind, node.length, ?_, ?_, h.symm⟩
      · rw [Device.kindOf?, hnode, Option.map_some]
      · rw [Device.tallyOf, Device.lengthOf?, hnode, Option.map_some, Option.getD_some]
  · cases h

/-- **The usage of nodes that are visited one by one**: those of the fabric, in total
and of each kind. -/
theorem Usage.visits_eq_ok (h : ns.foldlM (Usage.visit · d net) u = .ok u') :
    u'.total = u.total + ((ns.filter d.isFabric).map d.tallyOf).sum ∧
    (∀ k, u'.ofKind k = u.ofKind k +
      ((ns.filter d.isFabric).filter (d.kindOf? · = some k) |>.map d.tallyOf).sum) ∧
    (u.Balanced → u'.Balanced) := by
  induction ns generalizing u with
  | nil =>
    cases h
    exact ⟨(add_zero _).symm, fun _ => (add_zero _).symm, id⟩
  | cons n ns ih =>
    rw [List.foldlM_cons] at h
    obtain ⟨next, hnext, h⟩ := bind_eq_ok.mp h
    obtain ⟨htotal, hkinds, hbalanced⟩ := ih h
    rcases Usage.visit_eq_ok hnext with ⟨hf, rfl⟩ | ⟨hf, j, l, hj, hl, rfl⟩
    · rw [List.filter_cons_of_neg (by simp [hf])]
      exact ⟨htotal, hkinds, hbalanced⟩
    · rw [List.filter_cons_of_pos hf]
      refine ⟨?_, fun k => ?_, fun hu => hbalanced (hu.record j l)⟩
      · rw [htotal, List.map_cons, List.sum_cons, hl, ← add_assoc]
        rfl
      · rw [hkinds, ofKind_record]
        split
        · rename_i hjk
          subst hjk
          rw [List.filter_cons_of_pos (by simpa using hj), List.map_cons, List.sum_cons, hl,
            ← add_assoc]
          rfl
        · rename_i hne
          rw [List.filter_cons_of_neg (by simpa [hj] using hne)]

end Visits

namespace Placement

variable {p : Placement} {s : Settings} {w : Weighting} {r : Routing} {id : NetId}
  {m : MeasuredNet} {dm : Measurement}

/-- **The nodes of the fabric that a net uses**: the ends of its committed edges. -/
def usedNodes (p : Placement) (r : Routing) (id : NetId) : Finset NodeId :=
  ((((r.of id).toList.filterMap p.device.edge?).flatMap fun e => [e.src, e.dst]).filter
    p.device.isFabric).toFinset

theorem mem_usedNodes {n : NodeId} :
    n ∈ p.usedNodes r id ↔ p.device.Touches (r.of id) n ∧ p.device.isFabric n = true := by
  simp only [usedNodes, List.mem_toFinset, List.mem_filter, List.mem_flatMap, List.mem_filterMap,
    List.mem_cons, List.not_mem_nil, or_false, Device.touches_iff, IdSet.mem_def]
  refine and_congr_left' ⟨?_, ?_⟩
  · rintro ⟨e, ⟨i, hi, he⟩, hn⟩
    exact ⟨i, hi, e, he, hn⟩
  · rintro ⟨i, hi, e, he, hn⟩
    exact ⟨e, ⟨i, hi, he⟩, hn⟩

/-- The nodes of some of the fabric nodes of a net, counted one by one. -/
def useOf (p : Placement) (ns : Finset NodeId) : Tally where
  nodes := ns.card
  length := ∑ n ∈ ns, (p.device.lengthOf? n).getD 0

theorem sum_tallyOf (ns : Finset NodeId) : ∑ n ∈ ns, p.device.tallyOf n = p.useOf ns := by
  induction ns using Finset.induction_on with
  | empty => rfl
  | insert n ns hn ih =>
    rw [Finset.sum_insert hn, ih, useOf, useOf, Finset.card_insert_of_notMem hn,
      Finset.sum_insert hn, Nat.add_comm ns.card]
    rfl

/-- The nodes of one kind among them. -/
def usedOfKind (p : Placement) (r : Routing) (id : NetId) (k : NodeKind) : Finset NodeId :=
  (p.usedNodes r id).filter (p.device.kindOf? · = some k)

/-- **What a measured net uses**: each node once. -/
theorem usage_of_measureNet (h : (p.measureNet w r id).outcome = .ok m) :
    m.usage.total = p.useOf (p.usedNodes r id) ∧
    (∀ k, m.usage.ofKind k = p.useOf (p.usedOfKind r id k)) ∧ m.usage.Balanced := by
  obtain ⟨_, _, route, -, -, hroute, -, husage, -⟩ := exists_of_measureNet h
  have hnodup : (route.nodes.filter p.device.isFabric).Nodup := route.nodup_nodes.filter _
  have hused : (route.nodes.filter p.device.isFabric).toFinset = p.usedNodes r id := by
    ext n
    rw [List.mem_toFinset, List.mem_filter, (draws_of_routeOfNet hroute).mem_nodes_iff,
      mem_usedNodes]
  have hkind : ∀ k, ((route.nodes.filter p.device.isFabric).filter
      (p.device.kindOf? · = some k)).toFinset = p.usedOfKind r id k := by
    intro k
    rw [usedOfKind, ← hused]
    ext n
    simp only [List.mem_toFinset, List.mem_filter, Finset.mem_filter, decide_eq_true_eq]
  obtain ⟨htotal, hkinds, hbalanced⟩ := Usage.visits_eq_ok husage
  refine ⟨?_, fun k => ?_, hbalanced Usage.balanced_zero⟩
  · rw [htotal, ← sum_tallyOf, ← hused, List.sum_toFinset _ hnodup]
    exact zero_add _
  · rw [hkinds, ← sum_tallyOf, ← hkind, List.sum_toFinset _ (hnodup.filter _),
      Usage.ofKind_empty]
    exact zero_add _

/-- The nets that take part in measurement, in their order. -/
def analyzedNets (p : Placement) (s : Settings) : List Net :=
  p.netlist.nets.toList.filter fun net => (p.isAnalyzed s net.id).toOption = some true

/-- **A measured design is its nets**, one after the other. -/
theorem nets_of_measure (h : (p.measure s r).outcome = .ok dm) :
    (p.analyzedNets s).mapM (fun net => (p.measureNet s.weighting r net.id).outcome) =
      .ok dm.nets := by
  obtain ⟨os, hos, rfl⟩ := measure_eq_ok.mp h
  have hall := mapM_eq_ok.mp hos
  rw [mapM_eq_ok]
  clear h hos
  unfold analyzedNets
  generalize p.netlist.nets.toList = nets at hall
  induction hall with
  | nil => exact .nil
  | cons ho _ ih =>
    rcases measureAnalyzed_eq_ok.mp ho with ⟨ha, rfl⟩ | ⟨ha, m, hm, rfl⟩
    · rw [List.filter_cons_of_neg (by simp [ha, Except.toOption])]
      exact ih
    · rw [List.filter_cons_of_pos (by simp [ha, Except.toOption])]
      exact .cons hm ih

/-- The use of some nodes of each net that takes part, added up. -/
def useOfNets (p : Placement) (s : Settings) (ns : NetId → Finset NodeId) : Tally where
  nodes := ((p.analyzedNets s).map fun net => (ns net.id).card).sum
  length := ((p.analyzedNets s).map fun net =>
    ∑ n ∈ ns net.id, (p.device.lengthOf? n).getD 0).sum

theorem sum_useOf (ns : NetId → Finset NodeId) :
    ((p.analyzedNets s).map fun net => p.useOf (ns net.id)).sum = p.useOfNets s ns := by
  unfold useOfNets
  induction p.analyzedNets s with
  | nil => rfl
  | cons net nets ih =>
    rw [List.map_cons, List.sum_cons, ih]
    rfl

theorem usage_eq_sum (dm : Measurement) : dm.usage = (dm.nets.map MeasuredNet.usage).sum := by
  rw [Measurement.usage, List.sum_eq_foldl, List.foldl_map]
  rfl

/-- **What a measured design uses**: net by net, each node of a net once. -/
theorem usage_of_measure (h : (p.measure s r).outcome = .ok dm) :
    dm.usage.total = p.useOfNets s (p.usedNodes r) ∧
    (∀ k, dm.usage.ofKind k = p.useOfNets s (p.usedOfKind r · k)) ∧ dm.usage.Balanced := by
  have hnets := nets_of_measure h
  rw [usage_eq_sum]
  refine ⟨?_, fun k => ?_, Usage.balanced_sum fun u hu => ?_⟩
  · rw [Usage.total_sum, List.map_map, ← sum_useOf]
    exact congrArg List.sum (map_eq_of_mapM hnets fun _ _ hm => (usage_of_measureNet hm).1)
  · rw [Usage.ofKind_sum, List.map_map, ← sum_useOf]
    exact congrArg List.sum
      (map_eq_of_mapM hnets fun _ _ hm => (usage_of_measureNet hm).2.1 k)
  · obtain ⟨m, hm, rfl⟩ := List.mem_map.mp hu
    obtain ⟨_, -, hmeasured⟩ := exists_source_of_mem hnets hm
    exact (usage_of_measureNet hmeasured).2.2

/-- The row of a kind, as a report shows it. -/
def kindUse (p : Placement) (s : Settings) (r : Routing) (k : NodeKind) : KindUse :=
  let use := p.useOfNets s (p.usedOfKind r · k)
  { kind := k, nodes := use.nodes, length := use.length }

/-- **What a report counts.** In total, each fabric node at an end of a committed edge once
for each net that takes part, and its length with it, whatever edges of the net share it
and whether the driver reaches it or not; in the row of a kind, the nodes of that kind,
and a kind has a row exactly if it has nodes. So the rows add up to the totals. What is
recorded in parts and merged, in either order, is what is recorded at once in any order. -/
theorem report_counts_once (h : (p.measure s r).outcome = .ok dm) (es : Entries) :
    let report := p.reportOn s dm es
    (report.totalNodes = ((p.analyzedNets s).map fun net => (p.usedNodes r net.id).card).sum ∧
      report.totalLength = ((p.analyzedNets s).map fun net =>
        ∑ n ∈ p.usedNodes r net.id, (p.device.lengthOf? n).getD 0).sum) ∧
    report.byKind = (NodeKind.all.map (p.kindUse s r)).filter (·.nodes ≠ 0) ∧
    (report.totalNodes = (report.byKind.map KindUse.nodes).sum ∧
      report.totalLength = (report.byKind.map KindUse.length).sum) ∧
    ∀ xs ys zs : List (NodeKind × Nat), zs.Perm (xs ++ ys) →
      (Usage.ofList xs).merge (Usage.ofList ys) = Usage.ofList zs ∧
      (Usage.ofList ys).merge (Usage.ofList xs) = Usage.ofList zs := by
  intro report
  obtain ⟨htotal, hkinds, hbalanced⟩ := usage_of_measure h
  have hrows := hbalanced.sum_rows
  have hkind : ∀ k, p.kindUse s r k =
      ⟨k, (dm.usage.ofKind k).nodes, (dm.usage.ofKind k).length⟩ := fun k => by
    rw [hkinds]
    rfl
  refine ⟨⟨congrArg Tally.nodes htotal, congrArg Tally.length htotal⟩, ?_, ⟨?_, ?_⟩,
    fun xs ys zs hzs => ⟨Usage.merge_ofList hzs,
      Usage.merge_ofList (hzs.trans List.perm_append_comm)⟩⟩
  · rw [funext hkind]
    simp only [report, reportOn, Usage.rows, List.filter_map, List.map_map]
    rfl
  · have hnodes := congrArg Tally.nodes hrows
    rw [Tally.nodes_sum, List.map_map] at hnodes
    rw [show report.byKind = dm.usage.rows.map _ from rfl, List.map_map]
    exact hnodes.symm
  · have hlength := congrArg Tally.length hrows
    rw [Tally.length_sum, List.map_map] at hlength
    rw [show report.byKind = dm.usage.rows.map _ from rfl, List.map_map]
    exact hlength.symm

/-! ## A route with a loose part -/

/-- A sink behind two parallel edges, and two nodes that no edge comes to. -/
def parallelEdges : Placement :=
  sketch [⟨.sitePin, none⟩, ⟨.output, none⟩, ⟨.single, none⟩, ⟨.sitePin, none⟩, ⟨.long, none⟩,
      ⟨.single, none⟩]
    [(0, 1), (1, 2), (1, 2), (2, 3), (4, 5)] [("A", 3)]

/-- All edges are committed: the node behind the parallel ones counts once, and those that
the driver does not reach count as well. -/
theorem parallelEdges_counts_once :
    ∃ dm, (parallelEdges.measure {} (.sketch [0, 1, 2, 3, 4])).outcome = .ok dm ∧
      let report := parallelEdges.reportOn {} dm {}
      report.totalNodes = 4 ∧ report.totalLength = 14 ∧
      report.totalNodes = (report.byKind.map KindUse.nodes).sum := by
  have hread : (parallelEdges.measure {} (.sketch [0, 1, 2, 3, 4])).outcome.map
      (fun dm => dm.nets.length) = .ok 1 := by decide +kernel
  obtain ⟨dm, hdm, -⟩ := map_eq_ok.mp hread
  obtain ⟨⟨hnodes, hlength⟩, -, ⟨hsum, -⟩, -⟩ := report_counts_once hdm {}
  refine ⟨dm, hdm, ?_, ?_, hsum⟩
  · rw [hnodes]
    decide +kernel
  · rw [hlength]
    decide +kernel

end Placement

end HoldMargin
