import HoldMargin.Proofs.Drawn
import HoldMargin.Ranking
/-!
# What is measured

Which connections a net has is fixed by the netlist; only their lengths
depend on the routing, and those of one net on the route of that net alone
(`Placement.measureNet_congr`). A connection at risk is therefore a matter
of its net (`Placement.AtRisk`), and what measuring the design finds at
risk is what measuring its nets one by one does
(`Placement.mem_hold_of_measure`).
-/

namespace HoldMargin

namespace Placement

variable {p : Placement} {s : Settings} {w : Weighting} {r r' : Routing} {id : NetId}
  {c : Connection} {cs : List Connection} {m : MeasuredNet}

/-! ## The connections of a net -/

theorem firstSinks_spec (seen : List PinId) (position : Nat) (ss : List PinId) :
    ((firstSinks seen position ss).map Prod.snd).Nodup ∧
      ∀ x ∈ firstSinks seen position ss, x.2 ∈ ss ∧ x.2 ∉ seen := by
  induction ss generalizing seen position with
  | nil => simp [firstSinks]
  | cons s ss ih =>
    rw [firstSinks]
    split
    · obtain ⟨hnodup, hmem⟩ := ih seen (position + 1)
      exact ⟨hnodup, fun x hx => ⟨List.mem_cons_of_mem _ (hmem x hx).1, (hmem x hx).2⟩⟩
    · rename_i hs
      obtain ⟨hnodup, hmem⟩ := ih (s :: seen) (position + 1)
      refine ⟨?_, fun x hx => ?_⟩
      · rw [List.map_cons, List.nodup_cons]
        refine ⟨fun hin => ?_, hnodup⟩
        obtain ⟨x, hx, hxs⟩ := List.mem_map.mp hin
        exact (hmem x hx).2 (hxs ▸ List.mem_cons_self)
      · rcases List.mem_cons.mp hx with rfl | hx
        · exact ⟨List.mem_cons_self, hs⟩
        · exact ⟨List.mem_cons_of_mem _ (hmem x hx).1,
            fun hin => (hmem x hx).2 (List.mem_cons_of_mem _ hin)⟩

/-- What the connection to a sink comes to. -/
theorem outcome_connect (id : NetId) (n : Net) (source : PinId) (index : Nat) (sink : PinId) :
    (p.connect id n source index sink).outcome = (do
      let driver ← p.driverOf n source sink
      let ends ← p.endsOf driver sink
      .ok { index, net := id, driver, sink, ends }) := by
  unfold connect
  simp only [Pass.outcome_bind, Pass.outcome_ofExcept]
  refine bind_congr fun driver => bind_congr fun ends => ?_
  cases ends <;> rfl

theorem connect_eq_ok {n : Net} {source sink : PinId} {index : Nat}
    (h : (p.connect id n source index sink).outcome = .ok c) :
    c.net = id ∧ c.sink = sink ∧ p.driverOf n source sink = .ok c.driver ∧
      p.endsOf c.driver sink = .ok c.ends := by
  rw [outcome_connect] at h
  obtain ⟨driver, hdriver, h⟩ := bind_eq_ok.mp h
  obtain ⟨ends, hends, h⟩ := bind_eq_ok.mp h
  cases h
  exact ⟨rfl, rfl, hdriver, hends⟩

/-- **A connection of a net** leads from a driver of the net to one of its
sinks. -/
structure IsConnection (p : Placement) (id : NetId) (n : Net) (c : Connection) : Prop where
  net : c.net = id
  sink : c.sink ∈ n.sinks
  driver : ∃ source, n.source = some source ∧ p.driverOf n source c.sink = .ok c.driver
  ends : p.endsOf c.driver c.sink = .ok c.ends

/-- **The connections of a net have distinct sinks.** -/
theorem connections_eq_ok (h : (p.connections id).outcome = .ok cs) :
    ∃ n, p.net id = .ok n ∧ (cs.map Connection.sink).Nodup ∧ ∀ c ∈ cs, p.IsConnection id n c := by
  unfold connections at h
  rw [Pass.outcome_bind] at h
  obtain ⟨n, hn, h⟩ := bind_eq_ok.mp h
  refine ⟨n, hn, ?_⟩
  split at h
  · rename_i source hsource
    rw [Pass.outcome_mapM] at h
    obtain ⟨hnodup, hmem⟩ := firstSinks_spec [] 0 n.sinks
    constructor
    · rwa [map_eq_of_mapM (k := Prod.snd) h fun x c hc => (connect_eq_ok hc).2.1]
    · intro c hc
      obtain ⟨x, hx, hxc⟩ := exists_source_of_mem h hc
      obtain ⟨hnet, hsink, hdriver, hends⟩ := connect_eq_ok hxc
      exact ⟨hnet, hsink ▸ (hmem x hx).1, ⟨source, hsource, hsink ▸ hdriver⟩, hsink ▸ hends⟩
  · cases h
    exact ⟨by simp, by simp⟩

/-! ## Measuring a net -/

/-- Where the length of a connection is read: at the node the route comes
through to the sink, if that counts, and else at the one that the sink
projects onto. -/
def sinkEntry (p : Placement) (route : Route) (ls : Lengths) (projected pinNode : NodeId) :
    NodeId :=
  (p.reroutedFeed? route ls projected pinNode).getD projected

/-- **The measurement of a connection** keeps everything but the ends and adds
the length. -/
structure Measures (p : Placement) (route : Route) (ls : Lengths) (c : Connection)
    (mc : MeasuredConnection) : Prop where
  index : mc.index = c.index
  net : mc.net = c.net
  driver : mc.driver = c.driver
  sink : mc.sink = c.sink
  length : c.ends = none ∧ mc.ends = none ∧ mc.length = none ∨
    ∃ ends node, c.ends = some ends ∧ p.pinNode c.sink = .ok node ∧
      mc.ends = some { ends with sink := p.sinkEntry route ls ends.sink node } ∧
      mc.length = ls.get? (p.sinkEntry route ls ends.sink node)

namespace Measures

variable {route : Route} {ls : Lengths} {mc : MeasuredConnection}

/-- Where the driver enters the fabric is kept. -/
theorem driver_ends (h : p.Measures route ls c mc) :
    mc.ends.map FabricEnds.driver = c.ends.map FabricEnds.driver := by
  rcases h.length with ⟨hends, hends', -⟩ | ⟨ends, node, hends, -, hends', -⟩
  · rw [hends, hends']
  · rw [hends, hends']
    rfl

/-- **The length is read at the sink's end**, where there is one. -/
theorem length_eq (h : p.Measures route ls c mc) :
    mc.length = mc.ends.bind fun ends => ls.get? ends.sink := by
  rcases h.length with ⟨-, hends, hlength⟩ | ⟨ends, node, -, -, hends, hlength⟩
  · rw [hends, hlength]
    rfl
  · rw [hends, hlength]
    rfl

end Measures

theorem measureConnection_eq_ok {name : String} {route : Route} {ls : Lengths}
    {mc : MeasuredConnection} (h : (p.measureConnection name route ls c).outcome = .ok mc) :
    p.Measures route ls c mc := by
  unfold measureConnection at h
  split at h
  · rename_i hends
    cases h
    exact ⟨rfl, rfl, rfl, rfl, .inl ⟨hends, hends, rfl⟩⟩
  · rename_i ends hends
    rw [Pass.outcome_bind] at h
    obtain ⟨node, hnode, h⟩ := bind_eq_ok.mp h
    -- whatever is registered or reported, this is the measurement
    have hread : ∀ mc : MeasuredConnection,
        mc = { c with
          ends := some { ends with sink := p.sinkEntry route ls ends.sink node }
          length := ls.get? (p.sinkEntry route ls ends.sink node) } →
        p.Measures route ls c mc := by
      rintro mc rfl
      exact ⟨rfl, rfl, rfl, rfl, .inr ⟨ends, node, hends, hnode, rfl, rfl⟩⟩
    apply hread
    unfold sinkEntry
    dsimp only at h
    split at h <;> split at h <;> cases h <;> rfl

/-- Measuring a net measures its connections one by one. -/
theorem exists_of_measureNet (h : (p.measureNet w r id).outcome = .ok m) :
    ∃ cs n route, (p.connections id).outcome = .ok cs ∧ p.net id = .ok n ∧
      p.routeOfNet r id = .ok route ∧
      route.lengthsFrom w p.device n.name (entryNodes cs).toList = .ok m.lengths ∧
      route.usage p.device n.name = .ok m.usage ∧ m.net = id ∧
      List.Forall₂ (fun c mc => (p.measureConnection n.name route m.lengths c).outcome = .ok mc)
        cs m.connections := by
  unfold measureNet at h
  simp only [Pass.outcome_bind, Pass.outcome_ofExcept, Pass.outcome_mapM] at h
  obtain ⟨cs, hcs, h⟩ := bind_eq_ok.mp h
  obtain ⟨n, hn, h⟩ := bind_eq_ok.mp h
  obtain ⟨route, hroute, h⟩ := bind_eq_ok.mp h
  obtain ⟨ls, hls, h⟩ := bind_eq_ok.mp h
  obtain ⟨usage, husage, h⟩ := bind_eq_ok.mp h
  obtain ⟨measured, hmeasured, h⟩ := bind_eq_ok.mp h
  cases h
  exact ⟨cs, n, route, hcs, hn, hroute, hls, husage, rfl, mapM_eq_ok.mp hmeasured⟩

/-- **What measuring a net finds.** -/
theorem measureNet_eq_ok (h : (p.measureNet w r id).outcome = .ok m) :
    ∃ cs n route, (p.connections id).outcome = .ok cs ∧ p.net id = .ok n ∧
      p.routeOfNet r id = .ok route ∧
      route.lengthsFrom w p.device n.name (entryNodes cs).toList = .ok m.lengths ∧
      m.net = id ∧
      List.Forall₂ (p.Measures route m.lengths) cs m.connections := by
  obtain ⟨cs, n, route, hcs, hn, hroute, hls, -, hid, hmeasured⟩ := exists_of_measureNet h
  exact ⟨cs, n, route, hcs, hn, hroute, hls, hid,
    hmeasured.imp fun _ _ hc => measureConnection_eq_ok hc⟩

/-- **The measurement of a net depends on its own route only.** -/
theorem measureNet_congr (h : r.of id = r'.of id) : p.measureNet w r id = p.measureNet w r' id := by
  unfold measureNet routeOfNet
  rw [h]

/-! ## Measuring the design -/

/-- A net of the design that takes part in measurement. -/
def Analyzes (p : Placement) (s : Settings) (id : NetId) : Prop :=
  p.isAnalyzed s id = .ok true ∧ ∃ net ∈ p.netlist.nets, net.id = id

theorem measureAnalyzed_eq_ok {o : Option MeasuredNet} :
    (p.measureAnalyzed s r id).outcome = .ok o ↔
      p.isAnalyzed s id = .ok false ∧ o = none ∨
        p.isAnalyzed s id = .ok true ∧
          ∃ m, (p.measureNet s.weighting r id).outcome = .ok m ∧ o = some m := by
  unfold measureAnalyzed
  rw [Pass.outcome_bind, bind_eq_ok]
  constructor
  · rintro ⟨analyzed, ha, h⟩
    cases analyzed with
    | false =>
      cases h
      exact .inl ⟨ha, rfl⟩
    | true =>
      simp only [if_true, Pass.outcome_bind] at h
      obtain ⟨m, hm, h⟩ := bind_eq_ok.mp h
      cases h
      exact .inr ⟨ha, m, hm, rfl⟩
  · rintro (⟨ha, rfl⟩ | ⟨ha, m, hm, rfl⟩)
    · exact ⟨false, ha, rfl⟩
    · refine ⟨true, ha, ?_⟩
      simp only [if_true, Pass.outcome_bind]
      exact bind_eq_ok.mpr ⟨m, hm, rfl⟩

theorem measureAnalyzed_eq_error {e : PassError} :
    (p.measureAnalyzed s r id).outcome = .error e ↔
      p.isAnalyzed s id = .error e ∨
        p.isAnalyzed s id = .ok true ∧ (p.measureNet s.weighting r id).outcome = .error e := by
  unfold measureAnalyzed
  rw [Pass.outcome_bind, bind_eq_error]
  refine or_congr Iff.rfl ?_
  constructor
  · rintro ⟨analyzed, ha, h⟩
    cases analyzed with
    | false => cases h
    | true =>
      simp only [if_true, Pass.outcome_bind] at h
      rcases bind_eq_error.mp h with h | ⟨m, -, h⟩
      · exact ⟨ha, h⟩
      · cases h
  · rintro ⟨ha, h⟩
    refine ⟨true, ha, ?_⟩
    simp only [if_true, Pass.outcome_bind]
    exact bind_eq_error.mpr (.inl h)

theorem measure_eq_error {e : PassError} :
    (p.measure s r).outcome = .error e ↔
      (p.netlist.nets.toList.mapM fun net => (p.measureAnalyzed s r net.id).outcome) =
        .error e := by
  unfold measure
  rw [Pass.outcome_bind, Pass.outcome_mapM, bind_eq_error]
  constructor
  · rintro (h | ⟨_, -, h⟩)
    · exact h
    · cases h
  · exact .inl

theorem measure_eq_ok {dm : Measurement} :
    (p.measure s r).outcome = .ok dm ↔
      ∃ os, (p.netlist.nets.toList.mapM fun net => (p.measureAnalyzed s r net.id).outcome) =
        .ok os ∧ dm = { nets := os.filterMap fun o => o } := by
  unfold measure
  rw [Pass.outcome_bind, Pass.outcome_mapM, bind_eq_ok]
  refine exists_congr fun os => and_congr Iff.rfl ?_
  constructor
  · intro h
    cases h
    rfl
  · rintro rfl
    rfl

/-- **The nets of a measurement** are those that take part, each as it is
measured on its own. -/
theorem mem_nets_of_measure {dm : Measurement} (h : (p.measure s r).outcome = .ok dm) :
    m ∈ dm.nets ↔
      ∃ id, p.Analyzes s id ∧ (p.measureNet s.weighting r id).outcome = .ok m := by
  obtain ⟨os, hos, rfl⟩ := measure_eq_ok.mp h
  simp only [List.mem_filterMap, exists_eq_right]
  constructor
  · intro hm
    obtain ⟨net, hnet, ho⟩ := exists_source_of_mem hos hm
    rcases measureAnalyzed_eq_ok.mp ho with ⟨-, hno⟩ | ⟨ha, m', hm', heq⟩
    · cases hno
    · cases heq
      exact ⟨net.id, ⟨ha, net, Array.mem_toList_iff.mp hnet, rfl⟩, hm'⟩
  · rintro ⟨_, ⟨ha, net, hnet, rfl⟩, hm⟩
    obtain ⟨o, ho, hok⟩ := exists_result_of_mem hos (Array.mem_toList_iff.mpr hnet)
    rw [measureAnalyzed_eq_ok.mpr (.inr ⟨ha, m, hm, rfl⟩), Except.ok.injEq] at hok
    exact hok ▸ ho

/-- A net of a measured design is measured. -/
theorem exists_measureNet {dm : Measurement} (h : (p.measure s r).outcome = .ok dm)
    (ha : p.Analyzes s id) : ∃ m, (p.measureNet s.weighting r id).outcome = .ok m := by
  obtain ⟨os, hos, -⟩ := measure_eq_ok.mp h
  obtain ⟨hana, net, hnet, rfl⟩ := ha
  obtain ⟨o, -, ho⟩ := exists_result_of_mem hos (Array.mem_toList_iff.mpr hnet)
  rcases measureAnalyzed_eq_ok.mp ho with ⟨hno, -⟩ | ⟨-, m, hm, -⟩
  · rw [hana] at hno
    cases hno
  · exact ⟨m, hm⟩

/-! ## Another route for one net -/

theorem measureAnalyzed_congr (h : r'.of id = r.of id) :
    p.measureAnalyzed s r' id = p.measureAnalyzed s r id := by
  unfold measureAnalyzed
  rw [measureNet_congr h]

/-- If the net with another route can be measured, so can the design. -/
theorem exists_measure_of_other {dm : Measurement} (h : (p.measure s r).outcome = .ok dm)
    (hother : ∀ other, other ≠ id → r'.of other = r.of other)
    (hm : (p.measureNet s.weighting r' id).outcome = .ok m) :
    ∃ dm', (p.measure s r').outcome = .ok dm' := by
  obtain ⟨os, hos, -⟩ := measure_eq_ok.mp h
  have hall : ∀ net ∈ p.netlist.nets.toList,
      ∃ o, (p.measureAnalyzed s r' net.id).outcome = .ok o := by
    intro net hnet
    obtain ⟨o, -, ho⟩ := exists_result_of_mem hos hnet
    by_cases hid : net.id = id
    · rcases measureAnalyzed_eq_ok.mp ho with ⟨hno, -⟩ | ⟨ha, -⟩
      · exact ⟨none, measureAnalyzed_eq_ok.mpr (.inl ⟨hno, rfl⟩)⟩
      · exact ⟨some m, measureAnalyzed_eq_ok.mpr (.inr ⟨ha, m, hid ▸ hm, rfl⟩)⟩
    · rw [measureAnalyzed_congr (hother _ hid)]
      exact ⟨o, ho⟩
  obtain ⟨os', hos'⟩ := exists_mapM_eq_ok hall
  exact ⟨_, measure_eq_ok.mpr ⟨os', hos', rfl⟩⟩

/-- **If the net with another route cannot be measured, the design cannot**,
for the same reason. -/
theorem measure_eq_error_of_other {dm : Measurement} {e : PassError}
    (h : (p.measure s r).outcome = .ok dm)
    (hother : ∀ other, other ≠ id → r'.of other = r.of other) (ha : p.Analyzes s id)
    (he : (p.measureNet s.weighting r' id).outcome = .error e) :
    (p.measure s r').outcome = .error e := by
  obtain ⟨os, hos, -⟩ := measure_eq_ok.mp h
  obtain ⟨hana, net, hnet, rfl⟩ := ha
  refine measure_eq_error.mpr (mapM_eq_error (fun n hn e' he' => ?_)
    ⟨net, Array.mem_toList_iff.mpr hnet, measureAnalyzed_eq_error.mpr (.inr ⟨hana, he⟩)⟩)
  obtain ⟨o, -, ho⟩ := exists_result_of_mem hos hn
  by_cases hid : n.id = net.id
  · rw [hid] at he'
    rcases measureAnalyzed_eq_error.mp he' with he' | ⟨-, he'⟩
    · rw [hana] at he'
      cases he'
    · rw [he] at he'
      cases he'
      rfl
  · rw [measureAnalyzed_congr (hother _ hid), ho] at he'
    cases he'

/-! ## Connections at risk -/

/-- A measured connection measures a connection of its net. -/
theorem exists_connection (h : (p.measureNet w r id).outcome = .ok m) {mc : MeasuredConnection}
    (hmc : mc ∈ m.connections) :
    ∃ n c, p.net id = .ok n ∧ p.IsConnection id n c ∧ mc.key = c.key ∧ mc.driver = c.driver := by
  obtain ⟨cs, n, route, hcs, hn, -, -, -, hall⟩ := measureNet_eq_ok h
  obtain ⟨c, hc, hcmc⟩ := exists_left_of_mem hall hmc
  obtain ⟨n', hn', -, hconn⟩ := connections_eq_ok hcs
  rw [hn, Except.ok.injEq] at hn'
  subst hn'
  refine ⟨n, c, hn, hconn c hc, ?_, hcmc.driver⟩
  simp only [Connection.key, hcmc.net, hcmc.sink]

theorem net_eq_of_mem (h : (p.measureNet w r id).outcome = .ok m) {mc : MeasuredConnection}
    (hmc : mc ∈ m.connections) : mc.net = id := by
  obtain ⟨n, c, -, hc, hkey, -⟩ := exists_connection h hmc
  have hnet : mc.net = c.net := congrArg NetSink.net hkey
  rw [hnet, hc.net]

theorem atRisk?_eq_some {axis : SkewAxis} {mc : MeasuredConnection} {c : Ranked}
    (h : p.atRisk? axis mc = some c) :
    c.net = mc.net ∧ c.sink = mc.sink ∧ mc.length = some c.length := by
  unfold atRisk? MeasuredConnection.ranked? at h
  rw [Option.filter_eq_some_iff] at h
  obtain ⟨h, -⟩ := h
  split at h
  · cases h
  · obtain ⟨length, hl, rfl⟩ := Option.map_eq_some_iff.mp h
    rw [Option.filter_eq_some_iff] at hl
    exact ⟨rfl, rfl, hl.1⟩

/-- **A connection at risk**, with the length it is measured at. -/
def AtRisk (p : Placement) (s : Settings) (r : Routing) (c : Ranked) : Prop :=
  p.Analyzes s c.net ∧ ∃ m, (p.measureNet s.weighting r c.net).outcome = .ok m ∧
    ∃ mc ∈ m.connections, p.atRisk? s.hold.skewAxis mc = some c

/-- **What is at risk is found net by net.** -/
theorem mem_hold_of_measure {dm : Measurement} (h : (p.measure s r).outcome = .ok dm) {c : Ranked} :
    c ∈ (Ranking.hold p s.hold.skewAxis dm.connections).toList ↔ p.AtRisk s r c := by
  simp only [Ranking.mem_hold, Measurement.connections, List.mem_flatMap, mem_nets_of_measure h]
  constructor
  · rintro ⟨mc, ⟨m, ⟨id, ha, hm⟩, hmc⟩, hc⟩
    have hid : c.net = id := (atRisk?_eq_some hc).1.trans (net_eq_of_mem hm hmc)
    subst hid
    exact ⟨ha, m, hm, mc, hmc, hc⟩
  · rintro ⟨ha, m, hm, mc, hmc, hc⟩
    exact ⟨mc, ⟨m, ⟨c.net, ha, hm⟩, hmc⟩, hc⟩

/-- Whether a connection is at risk depends on the route of its net only. -/
theorem atRisk_congr {c : Ranked} (h : r.of c.net = r'.of c.net) :
    p.AtRisk s r c ↔ p.AtRisk s r' c := by
  unfold AtRisk
  rw [measureNet_congr h]

/-- A connection at risk leads to a sink of its net. -/
theorem AtRisk.mem_sinks {c : Ranked} (h : p.AtRisk s r c) :
    ∃ n, p.netlist.net? c.net = some n ∧ c.sink ∈ n.sinks := by
  obtain ⟨-, m, hm, mc, hmc, hc⟩ := h
  obtain ⟨n, c', hn, hconn, hkey, -⟩ := exists_connection hm hmc
  have hsink : mc.sink = c'.sink := congrArg NetSink.sink hkey
  rw [(atRisk?_eq_some hc).2.1, hsink]
  exact ⟨n, net_eq_ok.mp hn, hconn.sink⟩

/-! ## What may be picked -/

/-- A connection of a net that takes part in measurement. -/
def Offers (p : Placement) (s : Settings) (k : NetSink) : Prop :=
  p.Analyzes s k.net ∧ ∃ cs, (p.connections k.net).outcome = .ok cs ∧ ∃ c ∈ cs, c.key = k

/-- **Measuring the design finds the same connections whatever the routing.** -/
theorem mem_keys_of_measure {dm : Measurement} (h : (p.measure s r).outcome = .ok dm)
    {k : NetSink} :
    k ∈ dm.connections.map (fun c => c.key) ↔ p.Offers s k := by
  simp only [Measurement.connections, List.mem_map, List.mem_flatMap, mem_nets_of_measure h]
  constructor
  · rintro ⟨mc, ⟨m, ⟨id, ha, hm⟩, hmc⟩, rfl⟩
    have hid : mc.net = id := net_eq_of_mem hm hmc
    subst hid
    obtain ⟨cs, n, route, hcs, -, -, -, -, hall⟩ := measureNet_eq_ok hm
    obtain ⟨c, hc, hcmc⟩ := exists_left_of_mem hall hmc
    exact ⟨ha, cs, hcs, c, hc, by simp only [Connection.key, hcmc.net, hcmc.sink]⟩
  · rintro ⟨ha, cs, hcs, c, hc, rfl⟩
    obtain ⟨m, hm⟩ := exists_measureNet h ha
    obtain ⟨cs', n, route, hcs', -, -, -, -, hall⟩ := measureNet_eq_ok hm
    rw [hcs, Except.ok.injEq] at hcs'
    subst hcs'
    obtain ⟨mc, hmc, hcmc⟩ := exists_right_of_mem hall hc
    exact ⟨mc, ⟨m, ⟨_, ha, hm⟩, hmc⟩, by simp only [Connection.key, hcmc.net, hcmc.sink]⟩

theorem AtRisk.offers {c : Ranked} (h : p.AtRisk s r c) : p.Offers s c.key := by
  obtain ⟨ha, m, hm, mc, hmc, hc⟩ := h
  obtain ⟨cs, n, route, hcs, -, -, -, -, hall⟩ := measureNet_eq_ok hm
  obtain ⟨c', hc', hcmc⟩ := exists_left_of_mem hall hmc
  obtain ⟨hnet, hsink, -⟩ := atRisk?_eq_some hc
  refine ⟨ha, cs, hcs, c', hc', ?_⟩
  simp only [Connection.key, Ranked.key, hnet, hsink, hcmc.net, hcmc.sink]

end Placement

end HoldMargin
