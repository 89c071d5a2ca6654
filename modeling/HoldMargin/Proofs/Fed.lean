import HoldMargin.Proofs.Lengths
import HoldMargin.Proofs.Measured
import Mathlib.Data.List.Nodup
/-!
# Where lengths are read

The length of a connection is read at the fabric node that the route comes
through to the sink. If every way up from the node of the sink meets the
fabric within the hops that are looked at (`Device.meetsFabric`), that node
is found, and it is no higher up than any fabric node that leads to the
sink (`Route.exists_feed?`). So a connection is no shorter than it is to
any fabric node that leads to its sink (`Placement.Reads.le`).
-/

namespace HoldMargin

open Relation

namespace Device

/-- Whether every way up from a node meets the fabric within some hops. -/
def meetsFabric (d : Device) (n : NodeId) : (hops : Nat) → Bool
  | 0 => d.isFabric n
  | hops + 1 => d.isFabric n || d.edges.all fun e => e.dst != n || d.meetsFabric e.src hops

variable {d : Device} {es : EdgeSet} {m n : NodeId} {hops : Nat}

/-- The node before a node outside the fabric meets it within one hop less. -/
theorem meetsFabric_of_leads (h : d.meetsFabric n (hops + 1) = true) (hn : d.isFabric n = false)
    (hl : d.Leads es m n) : d.meetsFabric m hops = true := by
  obtain ⟨i, -, e, he, rfl, rfl⟩ := hl
  rw [meetsFabric, hn, Bool.false_or, Array.all_eq_true_iff_forall_mem] at h
  simpa using h e (Array.mem_of_getElem? he)

theorem isFabric_of_nearestFabric? {way : Way} {seen frontier : List NodeId}
    (h : d.nearestFabric? way seen frontier hops = some n) : d.isFabric n = true := by
  induction hops generalizing seen frontier with
  | zero => exact List.find?_some h
  | succ hops ih =>
    rw [nearestFabric?] at h
    split at h
    · rename_i hfind
      cases h
      exact List.find?_some hfind
    · exact ih h

/-- **What a node projects onto is in the fabric.** -/
theorem isFabric_of_project? {way : Way} (h : d.project? way m = some n) : d.isFabric n = true :=
  isFabric_of_nearestFabric? h

end Device

namespace Route

variable {r : Route} {d : Device} {es : EdgeSet} {n u v : NodeId} {hops : Nat}

/-- The node a route comes through is above the node it feeds. -/
theorem feed?_eq_some (hd : r.Draws d es) (h : r.feed? d n hops = some v) :
    ReflTransGen (d.Leads es) v n := by
  induction hops generalizing n with
  | zero =>
    rw [feed?] at h
    split at h
    · cases h
      exact .refl
    · cases h
  | succ hops ih =>
    rw [feed?] at h
    split at h
    · cases h
      exact .refl
    · obtain ⟨a, ha, h⟩ := Option.bind_eq_some_iff.mp h
      have hto := ih h
      obtain ⟨hmem, rfl⟩ := arrival?_eq_some ha
      exact hto.tail (hd.leads_iff.mp ⟨a, hmem, rfl, rfl⟩)

/-- **The node a route comes through is found**, and not above another fabric
node on the way. -/
theorem exists_feed? (hd : r.Draws d es) (hf : d.IsForest es) (hu : d.isFabric u = true)
    (hto : ReflTransGen (d.Leads es) u n) (hmeets : d.meetsFabric n hops = true) :
    ∃ v, r.feed? d n hops = some v ∧ ReflTransGen (d.Leads es) u v := by
  induction hops generalizing n with
  | zero => exact ⟨n, if_pos hmeets, hto⟩
  | succ hops ih =>
    rw [feed?]
    by_cases hn : d.isFabric n = true
    · exact ⟨n, by rw [if_pos hn], hto⟩
    · rw [if_neg hn]
      rw [Bool.not_eq_true] at hn
      rcases ReflTransGen.cases_tail hto with rfl | ⟨m, hm, hl⟩
      · rw [hu] at hn
        cases hn
      · obtain ⟨a, ha, rfl, rfl⟩ := hd.leads_iff.mpr hl
        -- in a forest the one arc to the node is the last of the way
        obtain ⟨v, hv, huv⟩ := ih hm (Device.meetsFabric_of_leads hmeets hn hl)
        refine ⟨v, ?_, huv⟩
        rw [(hd.arrival?_eq_some_iff hf).mpr ⟨ha, rfl⟩, Option.bind_some, hv]

/-- **The length that is read for a sink** at the node `n`: the one where the
route comes through, or else the one at the node that the sink projects
onto. -/
def Reads (r : Route) (d : Device) (w : Weighting) (es : EdgeSet) (roots : List NodeId)
    (projected n : NodeId) (k : Nat) : Prop :=
  (∃ v, r.feed? d n projectionReach = some v ∧ d.LengthAt w es roots v k) ∨
    (∀ v, r.feed? d n projectionReach = some v → ∀ l, ¬ d.LengthAt w es roots v l) ∧
      d.LengthAt w es roots projected k

/-- **One length is read for a sink.** -/
theorem Reads.unique {w : Weighting} {roots : List NodeId} {projected : NodeId} {k l : Nat}
    (hf : d.IsForest es) (h : r.Reads d w es roots projected n k)
    (h' : r.Reads d w es roots projected n l) : k = l := by
  rcases h with ⟨v, hv, hk⟩ | ⟨hno, hk⟩ <;> rcases h' with ⟨v', hv', hl⟩ | ⟨hno', hl⟩
  · rw [hv, Option.some.injEq] at hv'
    subst hv'
    exact hk.unique hf hl
  · exact absurd hk (hno' v hv k)
  · exact absurd hl (hno v' hv' l)
  · exact hk.unique hf hl

/-- **A connection is no shorter than it is to a fabric node that leads to its
sink**, if there are no roots below that node. -/
theorem Reads.le {w : Weighting} {roots : List NodeId} {projected : NodeId} {k l : Nat}
    (h : r.Reads d w es roots projected n l) (hd : r.Draws d es) (hf : d.IsForest es)
    (hknown : ∀ v, (∃ root ∈ roots, ReflTransGen (d.Leads es) root v) →
      ∃ k, d.LengthAt w es roots v k)
    (hmeets : d.meetsFabric n projectionReach = true) (hu : d.isFabric u = true)
    (hto : ReflTransGen (d.Leads es) u n)
    (hfree : ∀ v, ReflTransGen (d.Leads es) u v → v ∉ roots)
    (hk : d.LengthAt w es roots u k) : k ≤ l := by
  obtain ⟨v, hv, huv⟩ := exists_feed? hd hf hu hto hmeets
  rcases h with ⟨v', hv', hl⟩ | ⟨hno, -⟩
  · rw [hv, Option.some.injEq] at hv'
    subst hv'
    exact hk.le_of_below hf huv hfree hl
  · obtain ⟨root, hroot, hru⟩ := hk.exists_root
    -- where the route comes through it has been led to, so there is a length
    obtain ⟨l', hl'⟩ := hknown v ⟨root, hroot, hru.trans huv⟩
    exact absurd hl' (hno v hv l')

end Route

namespace Placement

variable {p : Placement} {w : Weighting} {r : Routing} {id : NetId} {c : Connection}
  {cs : List Connection} {m : MeasuredNet} {sink : PinId} {k : Nat}

/-! ## The ends of connections -/

/-- **The ends of a connection** are where the nodes of its pins project
onto. -/
theorem endsOf_eq_ok {driver : PinId} {ends : FabricEnds}
    (h : p.endsOf driver sink = .ok (some ends)) :
    (∃ node, p.pinNode sink = .ok node ∧ p.device.project? .uphill node = some ends.sink) ∧
      ∃ pin, p.pin driver = .ok pin ∧ p.device.outputEntry? pin.onSite = some ends.driver := by
  obtain ⟨sinkPin, hsink, h⟩ := bind_eq_ok.mp h
  split at h
  · cases h
  · rename_i exit hexit
    obtain ⟨pin, hpin, h⟩ := bind_eq_ok.mp h
    rw [Except.ok.injEq] at h
    obtain ⟨entry, hentry, rfl⟩ := Option.map_eq_some_iff.mp h
    obtain ⟨node, hnode, hproject⟩ := Option.bind_eq_some_iff.mp hexit
    exact ⟨⟨node, bind_eq_ok.mpr ⟨sinkPin, hsink, by rw [hnode]⟩, hproject⟩, pin, hpin, hentry⟩

theorem mem_drivers_of_driverOf {n : Net} {source driver : PinId} (hn : n.source = some source)
    (h : p.driverOf n source sink = .ok driver) : driver ∈ n.drivers := by
  obtain ⟨needs, -, h⟩ := bind_eq_ok.mp h
  rw [Net.drivers, hn, List.mem_append]
  cases needs with
  | false =>
    cases h
    exact .inl (by simp)
  | true =>
    right
    rw [if_pos rfl] at h
    split at h
    · rename_i alternate halt
      cases h
      simp [halt]
    · cases h

/-- **Lengths start at roots of the net.** -/
theorem mem_roots_of_entry {roots : NodeSet} {n : NodeId}
    (hcs : (p.connections id).outcome = .ok cs) (hroots : p.rootsOfNet id = .ok roots)
    (hn : n ∈ (entryNodes cs).toList) : n ∈ roots := by
  rw [← IdSet.mem_def, entryNodes, IdSet.mem_ofList] at hn
  obtain ⟨c, hc, hends⟩ := List.mem_filterMap.mp hn
  obtain ⟨ends, hsome, rfl⟩ := Option.map_eq_some_iff.mp hends
  obtain ⟨net, hnet, -, hconn⟩ := connections_eq_ok hcs
  obtain ⟨source, hsource, hdriver⟩ := (hconn c hc).driver
  obtain ⟨-, pin, hpin, hentry⟩ := endsOf_eq_ok (hsome ▸ (hconn c hc).ends)
  exact (mem_roots_iff (net_eq_ok.mp hnet) hroots).mpr
    ⟨_, mem_drivers_of_driverOf hsource hdriver, pin, pin_eq_ok.mp hpin, .inr hentry⟩

/-! ## The length of a connection -/

theorem connection?_eq_some_iff {mc : MeasuredConnection}
    (hnodup : (m.connections.map fun mc => mc.sink).Nodup) :
    m.connection? sink = some mc ↔ mc ∈ m.connections ∧ mc.sink = sink := by
  unfold MeasuredNet.connection?
  refine ⟨fun h => ⟨List.mem_of_find?_eq_some h, by simpa using List.find?_some h⟩, ?_⟩
  rintro ⟨hmc, hsink⟩
  cases hfind : m.connections.find? (·.sink = sink) with
  | none =>
    have hno := List.find?_eq_none.mp hfind mc hmc
    simp [hsink] at hno
  | some mc' =>
    have hsink' : mc'.sink = sink := by simpa using List.find?_some hfind
    rw [List.inj_on_of_nodup_map hnodup (List.mem_of_find?_eq_some hfind) hmc
      (hsink'.trans hsink.symm)]

theorem nodup_sinks {route : Route} {ls : Lengths} (hcs : (p.connections id).outcome = .ok cs)
    (hall : List.Forall₂ (p.Measures route ls) cs m.connections) :
    (m.connections.map fun mc => mc.sink).Nodup := by
  obtain ⟨n, -, hnodup, -⟩ := connections_eq_ok hcs
  have hsinks : List.Forall₂ (· = ·) (cs.map Connection.sink)
      (m.connections.map fun mc => mc.sink) := by
    rw [List.forall₂_map_left_iff, List.forall₂_map_right_iff]
    exact hall.imp fun _ _ h => h.sink.symm
  rw [List.forall₂_eq_eq_eq] at hsinks
  rwa [← hsinks]

/-- A connection of a measured net has its length. -/
theorem length?_of_mem (h : (p.measureNet w r id).outcome = .ok m) {mc : MeasuredConnection}
    (hmc : mc ∈ m.connections) : m.length? mc.sink = mc.length := by
  obtain ⟨cs, n, route, hcs, -, -, -, -, hall⟩ := measureNet_eq_ok h
  unfold MeasuredNet.length?
  rw [(connection?_eq_some_iff (nodup_sinks hcs hall)).mpr ⟨hmc, rfl⟩, Option.bind_some]

/-- **A connection at risk is measured at its length.** -/
theorem AtRisk.length? {s : Settings} {c : Ranked} (h : p.AtRisk s r c) :
    ∃ m, (p.measureNet s.weighting r c.net).outcome = .ok m ∧
      m.length? c.sink = some c.length := by
  obtain ⟨-, m, hm, mc, hmc, hc⟩ := h
  obtain ⟨-, hsink, hlength⟩ := atRisk?_eq_some hc
  exact ⟨m, hm, by rw [hsink, length?_of_mem hm hmc, hlength]⟩

/-- **The length of a connection is the one at the node where it is read.** -/
theorem length?_eq_some_iff {route : Route} {ls : Lengths}
    (hcs : (p.connections id).outcome = .ok cs)
    (hall : List.Forall₂ (p.Measures route ls) cs m.connections) :
    m.length? sink = some k ↔
      ∃ c ∈ cs, c.sink = sink ∧ ∃ ends node, c.ends = some ends ∧ p.pinNode sink = .ok node ∧
        ls.get? (p.sinkEntry route ls ends.sink node) = some k := by
  unfold MeasuredNet.length?
  rw [Option.bind_eq_some_iff]
  simp only [connection?_eq_some_iff (nodup_sinks hcs hall)]
  constructor
  · rintro ⟨mc, ⟨hmc, rfl⟩, hk⟩
    obtain ⟨c, hc, hcmc⟩ := exists_left_of_mem hall hmc
    rcases hcmc.length with ⟨-, -, hno⟩ | ⟨ends, node, hends, hnode, -, hlength⟩
    · rw [hk] at hno
      cases hno
    · rw [hcmc.sink]
      exact ⟨c, hc, rfl, ends, node, hends, hnode, hlength ▸ hk⟩
  · rintro ⟨c, hc, rfl, ends, node, hends, hnode, hk⟩
    obtain ⟨mc, hmc, hcmc⟩ := exists_right_of_mem hall hc
    refine ⟨mc, ⟨hmc, hcmc.sink⟩, ?_⟩
    rcases hcmc.length with ⟨hno, -⟩ | ⟨ends', node', hends', hnode', -, hlength⟩
    · rw [hends] at hno
      cases hno
    · rw [hends, Option.some.injEq] at hends'
      rw [hnode, Except.ok.injEq] at hnode'
      subst hends'
      subst hnode'
      rw [hlength, hk]

theorem get?_sinkEntry {route : Route} {ls : Lengths} {projected node : NodeId} :
    ls.get? (p.sinkEntry route ls projected node) = some k ↔
      (∃ v, route.feed? p.device node projectionReach = some v ∧ ls.get? v = some k) ∨
        (∀ v, route.feed? p.device node projectionReach = some v → ls.get? v = none) ∧
          ls.get? projected = some k := by
  unfold sinkEntry reroutedFeed?
  cases route.feed? p.device node projectionReach with
  | none => simp
  | some v =>
    cases hv : ls.get? v with
    | none => simp [Option.filter_some, IdMap.contains, hv]
    | some l =>
      by_cases hne : v = projected
      · subst hne
        simp [Option.filter_some, hv]
      · simp [Option.filter_some, IdMap.contains, hv, hne]

/-- **Where a connection leaves the fabric** for its sink: at the node the sink
projects onto, as far as the device can tell. -/
structure Exits (p : Placement) (cs : List Connection) (sink : PinId) (node projected : NodeId) :
    Prop where
  listed : ∃ c ∈ cs, c.sink = sink ∧ c.ends.map FabricEnds.sink = some projected
  at_node : p.pinNode sink = .ok node
  projects : p.device.project? .uphill node = some projected

theorem exits_iff {node projected : NodeId} (hcs : (p.connections id).outcome = .ok cs) :
    p.Exits cs sink node projected ↔
      ∃ c ∈ cs, c.sink = sink ∧ c.ends.map FabricEnds.sink = some projected ∧
        p.pinNode sink = .ok node := by
  obtain ⟨_, -, -, hconn⟩ := connections_eq_ok hcs
  constructor
  · rintro ⟨⟨c, hc, hsink, hends⟩, hnode, -⟩
    exact ⟨c, hc, hsink, hends, hnode⟩
  · rintro ⟨c, hc, rfl, hends, hnode⟩
    obtain ⟨ends, hsome, rfl⟩ := Option.map_eq_some_iff.mp hends
    obtain ⟨⟨node', hnode', hproj⟩, -⟩ := endsOf_eq_ok (hsome ▸ (hconn c hc).ends)
    rw [hnode, Except.ok.injEq] at hnode'
    exact ⟨⟨c, hc, rfl, hends⟩, hnode, hnode' ▸ hproj⟩

/-- **A measured net**, with its connections and its route. -/
structure Surveys (p : Placement) (w : Weighting) (r : Routing) (id : NetId) (m : MeasuredNet)
    (cs : List Connection) (route : Route) : Prop where
  connections : (p.connections id).outcome = .ok cs
  draws : route.Draws p.device (r.of id)
  /-- Every node that the route leads to has a length. -/
  known : ∀ n, (∃ root ∈ (entryNodes cs).toList, ReflTransGen (p.device.Leads (r.of id)) root n) →
    ∃ k, p.device.LengthAt w (r.of id) (entryNodes cs).toList n k
  length : ∀ sink k, m.length? sink = some k ↔
    ∃ node projected, p.Exits cs sink node projected ∧
      route.Reads p.device w (r.of id) (entryNodes cs).toList projected node k

/-- **What is measured is what is read.** -/
theorem exists_surveys (h : (p.measureNet w r id).outcome = .ok m)
    (hf : p.device.IsForest (r.of id)) : ∃ cs route, p.Surveys w r id m cs route := by
  obtain ⟨cs, n, route, hcs, -, hroute, hls, -, hall⟩ := measureNet_eq_ok h
  have hd := draws_of_routeOfNet hroute
  have hlength : ∀ v k, m.lengths.get? v = some k ↔
      p.device.LengthAt w (r.of id) (entryNodes cs).toList v k :=
    fun v k => Route.get?_lengthsFrom hd hf hls
  have hread : ∀ projected node k,
      m.lengths.get? (p.sinkEntry route m.lengths projected node) = some k ↔
        route.Reads p.device w (r.of id) (entryNodes cs).toList projected node k := by
    intro projected node k
    simp only [get?_sinkEntry, Option.eq_none_iff_forall_ne_some]
    simp only [ne_eq, hlength, Route.Reads]
  refine ⟨cs, route, hcs, hd, fun n hn => ?_, fun sink k => ?_⟩
  · obtain ⟨k, hk⟩ := Route.exists_length hd hls hn
    exact ⟨k, (hlength n k).mp hk⟩
  · simp only [length?_eq_some_iff hcs hall, exits_iff hcs, hread]
    constructor
    · rintro ⟨c, hc, hsink, ends, node, hends, hnode, hk⟩
      exact ⟨node, ends.sink, ⟨c, hc, hsink, by rw [hends, Option.map_some], hnode⟩, hk⟩
    · rintro ⟨node, projected, ⟨c, hc, hsink, hends, hnode⟩, hk⟩
      obtain ⟨ends, hsome, rfl⟩ := Option.map_eq_some_iff.mp hends
      exact ⟨c, hc, hsink, ends, node, hsome, hnode, hk⟩

end Placement

end HoldMargin
