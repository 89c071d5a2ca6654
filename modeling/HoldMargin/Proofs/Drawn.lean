import HoldMargin.Placement
import HoldMargin.Proofs.Committed
import HoldMargin.Proofs.Outcome
/-!
# The route drawn by committed edges

A route is a list of arcs, and committed edges are a set. `Route.Draws`
says that the arcs are the edges: every arc stands for an edge of the set,
and every edge of the set has an arc between its ends. That is what
`Placement.routeOf` makes (`draws_of_routeOfNet`), and from there on the
arcs are read as the relation `Device.Leads` of the set. The roots that a
route grows from are those of the drivers of its net
(`Placement.mem_roots_iff`).
-/

namespace HoldMargin

namespace Route

variable {r : Route} {u v n : NodeId} {a b : Arc}

/-- An arc leads from a node to a node. -/
def Leads (r : Route) (u v : NodeId) : Prop := ∃ a ∈ r.arcs, a.src = u ∧ a.dst = v

theorem mem_successors : v ∈ r.successors u ↔ r.Leads u v := by
  simp only [successors, Leads, List.mem_map, List.mem_filter, decide_eq_true_eq]
  constructor
  · rintro ⟨a, ⟨ha, hsrc⟩, hdst⟩
    exact ⟨a, ha, hsrc, hdst⟩
  · rintro ⟨a, ha, hsrc, hdst⟩
    exact ⟨a, ⟨ha, hsrc⟩, hdst⟩

/-- A node that does not fan out leads to one node at most. -/
theorem eq_of_length_successors_le (h : (r.successors n).length ≤ 1) (hu : r.Leads n u)
    (hv : r.Leads n v) : u = v := by
  rw [← mem_successors] at hu hv
  match hs : r.successors n with
  | [] => rw [hs] at hu; cases hu
  | [w] =>
    rw [hs, List.mem_singleton] at hu hv
    rw [hu, hv]
  | _ :: _ :: _ => rw [hs] at h; simp at h

theorem mem_nodes : n ∈ r.nodes ↔ ∃ m, r.Leads n m ∨ r.Leads m n := by
  simp only [nodes, List.mem_eraseDups, List.mem_flatMap, Leads]
  constructor
  · rintro ⟨a, ha, hn⟩
    rcases List.mem_cons.mp hn with rfl | hn
    · exact ⟨a.dst, .inl ⟨a, ha, rfl, rfl⟩⟩
    · rw [List.mem_singleton] at hn
      exact ⟨a.src, .inr ⟨a, ha, rfl, hn.symm⟩⟩
  · rintro ⟨m, ⟨a, ha, hsrc, -⟩ | ⟨a, ha, -, hdst⟩⟩
    · exact ⟨a, ha, by simp [hsrc]⟩
    · exact ⟨a, ha, by simp [hdst]⟩

theorem arrival?_eq_some (h : r.arrival? n = some a) : a ∈ r.arcs ∧ a.dst = n := by
  have hmem : a ∈ r.arrivals n := List.mem_of_mem_head? h
  simpa [arrivals] using hmem

theorem arrival?_eq_none : r.arrival? n = none ↔ ∀ u, ¬ r.Leads u n := by
  rw [arrival?, List.head?_eq_none_iff, arrivals, List.filter_eq_nil_iff]
  constructor
  · rintro h u ⟨a, ha, -, hdst⟩
    exact h a ha (by simp [hdst])
  · intro h a ha hdst
    exact h a.src ⟨a, ha, rfl, by simpa using hdst⟩

/-! ## The arcs of hops -/

theorem mem_of_mem_addArc {l : List Arc} (h : b ∈ addArc a l) : b = a ∨ b ∈ l := by
  induction l with
  | nil => simpa [addArc] using h
  | cons c l ih =>
    rw [addArc] at h
    split at h
    · exact (List.mem_cons.mp h).imp id (List.mem_cons_of_mem _)
    · rcases List.mem_cons.mp h with rfl | h
      · exact .inr List.mem_cons_self
      · exact (ih h).imp id (List.mem_cons_of_mem _)

/-- Every arc of a route is one of the hops it is made of. -/
theorem mem_of_mem_ofArcs {as : List Arc} (h : a ∈ (ofArcs as).arcs) : a ∈ as := by
  suffices hgen : ∀ r : Route, a ∈ (as.foldl add r).arcs → a ∈ r.arcs ∨ a ∈ as from
    (hgen {} h).resolve_left List.not_mem_nil
  clear h
  induction as with
  | nil => exact fun r h => .inl h
  | cons c as ih =>
    intro r h
    rcases ih (r.add c) h with h | h
    · rcases mem_of_mem_addArc h with rfl | h
      · exact .inr List.mem_cons_self
      · exact .inl h
    · exact .inr (List.mem_cons_of_mem _ h)

/-- Every hop has an arc between its ends. -/
theorem ends_mem_ofArcs {as : List Arc} (h : a ∈ as) : a.ends ∈ (ofArcs as).arcs.map Arc.ends := by
  suffices hgen : ∀ r : Route, a.ends ∈ r.arcs.map Arc.ends ∨ a ∈ as →
      a.ends ∈ (as.foldl add r).arcs.map Arc.ends from hgen {} (.inr h)
  clear h
  induction as with
  | nil => exact fun r h => h.resolve_right List.not_mem_nil
  | cons c as ih =>
    intro r h
    refine ih (r.add c) ?_
    rw [add, ends_addArc]
    rcases h with h | h
    · left
      split
      · exact h
      · exact List.mem_append_left _ h
    · rcases List.mem_cons.mp h with rfl | h
      · left
        split
        · assumption
        · exact List.mem_append_right _ List.mem_cons_self
      · exact .inr h

/-- **The arcs are the edges**, each standing for one of the set. -/
structure Draws (d : Device) (r : Route) (es : EdgeSet) : Prop where
  edge : ∀ a ∈ r.arcs, a.edge ∈ es ∧
    ∃ e, d.edge? a.edge = some e ∧ e.src = a.src ∧ e.dst = a.dst
  arc : ∀ i ∈ es, ∃ e, d.edge? i = some e ∧ r.Leads e.src e.dst

namespace Draws

variable {d : Device} {es : EdgeSet}

theorem leads_iff (h : r.Draws d es) : r.Leads u v ↔ d.Leads es u v := by
  constructor
  · rintro ⟨a, ha, rfl, rfl⟩
    obtain ⟨hmem, e, he, hsrc, hdst⟩ := h.edge a ha
    exact ⟨a.edge, hmem, e, he, hsrc, hdst⟩
  · rintro ⟨i, hi, e, he, rfl, rfl⟩
    obtain ⟨f, hfe, hl⟩ := h.arc i hi
    rw [he, Option.some.injEq] at hfe
    exact hfe ▸ hl

theorem leads_eq (h : r.Draws d es) : r.Leads = d.Leads es :=
  funext fun _ => funext fun _ => propext h.leads_iff

theorem mem_nodes_iff (h : r.Draws d es) : n ∈ r.nodes ↔ d.Touches es n := by
  rw [mem_nodes, h.leads_eq]
  exact Iff.rfl

/-- In a forest one arc leads to a node. -/
theorem arc_unique (h : r.Draws d es) (hf : d.IsForest es) (ha : a ∈ r.arcs) (hb : b ∈ r.arcs)
    (hab : a.dst = b.dst) : a = b := by
  obtain ⟨hma, e, he, hsrc, hdst⟩ := h.edge a ha
  obtain ⟨hmb, f, hfe, hsrc', hdst'⟩ := h.edge b hb
  -- the same edge is behind both, and an arc is known by its edge
  have hedge := hf.entered_once _ hma _ hmb e f he hfe (by rw [hdst, hdst', hab])
  rw [hedge, hfe, Option.some.injEq] at he
  cases a; cases b
  subst he
  simp only at hsrc hsrc' hab hedge
  rw [← hsrc, ← hsrc', hab, hedge]

/-- In a forest the arc that leads to a node is its arrival. -/
theorem arrival?_eq_some_iff (h : r.Draws d es) (hf : d.IsForest es) :
    r.arrival? n = some a ↔ a ∈ r.arcs ∧ a.dst = n := by
  refine ⟨arrival?_eq_some, fun ⟨ha, hn⟩ => ?_⟩
  cases hb : r.arrival? n with
  | none => exact absurd ⟨a, ha, rfl, hn⟩ (arrival?_eq_none.mp hb a.src)
  | some b =>
    obtain ⟨hmem, hbn⟩ := arrival?_eq_some hb
    rw [h.arc_unique hf hmem ha (by rw [hbn, hn])]

end Draws

end Route

/-! ## Nets and pins -/

namespace Placement

variable {p : Placement} {r : Routing} {net : NetId} {name : String}

theorem net_eq_ok {n : Net} : p.net net = .ok n ↔ p.netlist.net? net = some n := by
  unfold Placement.net
  cases p.netlist.net? net <;> simp

theorem pin_eq_ok {id : PinId} {pin : Pin} : p.pin id = .ok pin ↔ p.netlist.pin? id = some pin := by
  unfold Placement.pin
  split <;> simp [*]

/-- **A node the route of a net grows from**: that of the pin of a driver, or the node of
the fabric the driver enters. -/
def IsRoot (p : Placement) (n : Net) (root : NodeId) : Prop :=
  ∃ driver ∈ n.drivers, ∃ pin, p.netlist.pin? driver = some pin ∧
    (p.device.pinNode? pin.onSite = some root ∨ p.device.outputEntry? pin.onSite = some root)

/-- **The roots of a net** are those of its drivers. -/
theorem mem_roots_iff {n : Net} {roots : NodeSet} {root : NodeId}
    (hn : p.netlist.net? net = some n) (hroots : p.rootsOfNet net = .ok roots) :
    root ∈ roots ↔ p.IsRoot n root := by
  obtain ⟨n', hn', hroots⟩ := bind_eq_ok.mp hroots
  rw [net_eq_ok, hn, Option.some.injEq] at hn'
  subst hn'
  obtain ⟨rootss, hm, hroots⟩ := bind_eq_ok.mp hroots
  cases hroots
  rw [IdSet.mem_ofList, List.mem_flatten]
  constructor
  · rintro ⟨rs, hrs, hmem⟩
    obtain ⟨driver, hdriver, hok⟩ := exists_source_of_mem hm hrs
    obtain ⟨pin, hpin, hok⟩ := bind_eq_ok.mp hok
    cases hok
    exact ⟨driver, hdriver, pin, pin_eq_ok.mp hpin, by simpa using hmem⟩
  · rintro ⟨driver, hdriver, pin, hpin, hroot⟩
    obtain ⟨rs, hrs, hok⟩ := exists_result_of_mem hm hdriver
    obtain ⟨pin', hpin', hok⟩ := bind_eq_ok.mp hok
    rw [pin_eq_ok, hpin, Option.some.injEq] at hpin'
    subst hpin'
    cases hok
    exact ⟨_, hrs, by simpa using hroot⟩

/-- A net has roots exactly if it exists and the pins of its drivers do. -/
theorem exists_rootsOfNet_iff :
    (∃ roots, p.rootsOfNet net = .ok roots) ↔ ∃ n, p.netlist.net? net = some n ∧
      ∀ driver ∈ n.drivers, ∃ pin, p.netlist.pin? driver = some pin := by
  constructor
  · rintro ⟨roots, h⟩
    obtain ⟨n, hn, h⟩ := bind_eq_ok.mp h
    obtain ⟨rootss, hm, -⟩ := bind_eq_ok.mp h
    refine ⟨n, net_eq_ok.mp hn, fun driver hdriver => ?_⟩
    obtain ⟨rs, -, hok⟩ := exists_result_of_mem hm hdriver
    obtain ⟨pin, hpin, -⟩ := bind_eq_ok.mp hok
    exact ⟨pin, pin_eq_ok.mp hpin⟩
  · rintro ⟨n, hn, hdrivers⟩
    have hall : ∀ driver ∈ n.drivers, ∃ rs, p.rootsOf driver = .ok rs := by
      intro driver hdriver
      obtain ⟨pin, hpin⟩ := hdrivers driver hdriver
      exact ⟨_, bind_eq_ok.mpr ⟨pin, pin_eq_ok.mpr hpin, rfl⟩⟩
    obtain ⟨rootss, hm⟩ := exists_mapM_eq_ok hall
    exact ⟨_, bind_eq_ok.mpr ⟨n, net_eq_ok.mpr hn, bind_eq_ok.mpr ⟨rootss, hm, rfl⟩⟩⟩

/-! ## Routes of nets -/

theorem hopOf_eq_ok {i : EdgeId} {a : Arc} :
    p.hopOf name i = .ok a ↔
      ∃ e, p.device.edge? i = some e ∧ a = { src := e.src, dst := e.dst, edge := i } := by
  unfold hopOf
  cases p.device.edge? i <;> simp [eq_comm]

/-- **The route that edges make up is drawn by them**, in whatever order they
are taken. -/
theorem draws_of_routeOf {is : List EdgeId} {route : Route} (h : p.routeOf name is = .ok route) :
    route.Draws p.device (IdSet.ofList is) := by
  obtain ⟨hops, hm, h⟩ := bind_eq_ok.mp h
  cases h
  constructor
  · intro a ha
    obtain ⟨i, hi, hia⟩ := exists_source_of_mem hm (Route.mem_of_mem_ofArcs ha)
    obtain ⟨e, he, rfl⟩ := hopOf_eq_ok.mp hia
    exact ⟨IdSet.mem_ofList.mpr hi, e, he, rfl, rfl⟩
  · intro i hi
    obtain ⟨a, ha, hia⟩ := exists_result_of_mem hm (IdSet.mem_ofList.mp hi)
    obtain ⟨e, he, rfl⟩ := hopOf_eq_ok.mp hia
    obtain ⟨b, hb, hends⟩ := List.mem_map.mp (Route.ends_mem_ofArcs ha)
    simp only [Arc.ends, Prod.mk.injEq] at hends
    exact ⟨e, he, b, hb, hends.1, hends.2⟩

theorem draws_of_routeOfNet {route : Route} (h : p.routeOfNet r net = .ok route) :
    route.Draws p.device (r.of net) := by
  obtain ⟨n, -, h⟩ := bind_eq_ok.mp h
  have hdraws := draws_of_routeOf h
  rwa [IdSet.ofList_toList] at hdraws

/-- **Edges make up a route exactly if the device has all of them.** -/
theorem exists_routeOf_iff {is : List EdgeId} :
    (∃ route, p.routeOf name is = .ok route) ↔
      ∀ i ∈ IdSet.ofList is, ∃ e, p.device.edge? i = some e := by
  constructor
  · rintro ⟨route, h⟩ i hi
    obtain ⟨e, he, -⟩ := (draws_of_routeOf h).arc i hi
    exact ⟨e, he⟩
  · intro hall
    have hhops : ∀ i ∈ is, ∃ a, p.hopOf name i = .ok a := fun i hi => by
      obtain ⟨e, he⟩ := hall i (IdSet.mem_ofList.mpr hi)
      exact ⟨_, hopOf_eq_ok.mpr ⟨e, he, rfl⟩⟩
    obtain ⟨hops, hm⟩ := exists_mapM_eq_ok hhops
    exact ⟨Route.ofArcs hops, bind_eq_ok.mpr ⟨hops, hm, rfl⟩⟩

/-- A net has a route exactly if it exists and the device has all its edges. -/
theorem exists_routeOfNet_iff :
    (∃ route, p.routeOfNet r net = .ok route) ↔
      (∃ n, p.net net = .ok n) ∧ ∀ i ∈ r.of net, ∃ e, p.device.edge? i = some e := by
  constructor
  · rintro ⟨route, h⟩
    obtain ⟨n, hn, h⟩ := bind_eq_ok.mp h
    have hall := exists_routeOf_iff.mp ⟨route, h⟩
    rw [IdSet.ofList_toList] at hall
    exact ⟨⟨n, hn⟩, hall⟩
  · rintro ⟨⟨n, hn⟩, hall⟩
    rw [← IdSet.ofList_toList (r.of net)] at hall
    obtain ⟨route, h⟩ := exists_routeOf_iff.mpr hall
    exact ⟨route, bind_eq_ok.mpr ⟨n, hn, h⟩⟩

end Placement

end HoldMargin
