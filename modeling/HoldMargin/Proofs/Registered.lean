import HoldMargin.Proofs.Connected
/-!
# What a measurement registers

A pass on a register comes to the same whatever is registered already, and hands on the
register with its own nodes added (`Pass.runOn`). What a measurement adds can be read off
its result: of each connection that runs through the fabric the node that its driver enters,
the node that its sink projects onto, and the node that the route comes through to the sink,
if that counts in place of it (`Placement.Meets`). A node may be any of these for several
connections, and more than one of them. That is all there is to registering, so a design that
is measured again adds nothing (`Placement.measure_runOn`).
-/

namespace HoldMargin

open Pass

/-! ## Passes on a register -/

/-- **Registers with the same nodes are equal.** -/
theorem Entries.ext_nodesAt {es es' : Entries}
    (h : ∀ e n, n ∈ es.nodesAt e ↔ n ∈ es'.nodesAt e) : es = es' := by
  have hdrivers : es.drivers = es'.drivers := IdSet.ext (h .driver)
  have hsinks : es.sinks = es'.sinks := IdSet.ext (h .sink)
  cases es
  cases es'
  cases hdrivers
  cases hsinks
  rfl

namespace Pass

variable {α β : Type}

/-- A pass on a register: its outcome, and the register it hands on. -/
def runOn (x : Pass α) (es : Entries) : Except PassError α × Entries :=
  (x.outcome, registerAll es x.events)

@[simp] theorem runOn_ofExcept (x : Except PassError α) (es : Entries) :
    (ofExcept x).runOn es = (x, es) := rfl

@[simp] theorem runOn_register (e : End) (n : NodeId) (es : Entries) :
    (register e n).runOn es = (.ok (), es.register e n) := rfl

@[simp] theorem runOn_report (f : Finding) (es : Entries) :
    (report f).runOn es = (.ok (), es) := rfl

/-- **A pass and then another** share the register: the second one gets what the first one
hands on. -/
theorem runOn_bind (x : Pass α) (f : α → Pass β) (es : Entries) :
    (x >>= f).runOn es =
      match x.runOn es with
      | (.ok a, es) => (f a).runOn es
      | (.error e, es) => (.error e, es) := by
  obtain ⟨events, outcome⟩ := x
  cases outcome with
  | error e => rfl
  | ok a =>
    show (_, registerAll es (events ++ (f a).events)) = (_, registerAll (registerAll es events) _)
    rw [registerAll, List.foldl_append]
    rfl

/-- **What is registered again** changes nothing. -/
theorem registerAll_registerAll (es : Entries) (events : List Event) :
    registerAll (registerAll es events) events = registerAll es events := by
  refine Entries.ext_nodesAt fun e n => ?_
  simp only [Entries.mem_nodesAt_registerAll]
  exact or_iff_left_of_imp .inr

end Pass

namespace Placement

variable {p : Placement} {s : Settings} {w : Weighting} {r : Routing} {id : NetId} {n : NodeId}
  {e : End} {c : Connection} {cs : List Connection} {m : MeasuredNet} {dm : Measurement}
  {mc : MeasuredConnection}

/-! ## One connection -/

/-- **Where a measured connection of a net meets the fabric**, as far as that is registered.
A direct connection does not. -/
inductive Meets (p : Placement) (r : Routing) (m : MeasuredNet) (mc : MeasuredConnection) :
    End → NodeId → Prop
  /-- The node that the driver enters. -/
  | driver {entry : NodeId} :
      mc.isDirect = false → p.Enters mc.driver entry → Meets p r m mc .driver entry
  /-- The node that the sink projects onto. -/
  | projected {exit : NodeId} :
      mc.isDirect = false → p.Feeds exit mc.sink → Meets p r m mc .sink exit
  /-- The node that the route comes through to the sink, if it counts in place of the one that
  the sink projects onto. -/
  | rerouted {exit node feed : NodeId} {route : Route} :
      mc.isDirect = false → p.Feeds exit mc.sink → p.routeOfNet r m.net = .ok route →
      p.pinNode mc.sink = .ok node →
      p.reroutedFeed? route m.lengths exit node = some feed → Meets p r m mc .sink feed

theorem Feeds.unique {sink : PinId} {exit exit' : NodeId} (h : p.Feeds exit sink)
    (h' : p.Feeds exit' sink) : exit = exit' := by
  obtain ⟨pin, hpin, hexit⟩ := h
  exact Option.some.inj (hexit.symm.trans ((feeds_iff hpin).mp h'))

theorem Enters.unique {driver : PinId} {entry entry' : NodeId} (h : p.Enters driver entry)
    (h' : p.Enters driver entry') : entry = entry' := by
  obtain ⟨pin, hpin, hentry⟩ := h
  exact Option.some.inj (hentry.symm.trans ((enters_iff hpin).mp h'))

theorem Measures.isDirect_eq_false_iff {route : Route} {ls : Lengths}
    (h : p.Measures route ls c mc) : mc.isDirect = false ↔ ∃ ends, c.ends = some ends := by
  have hsame : mc.isDirect = c.isDirect := by
    unfold Connection.isDirect
    rcases h.length with ⟨hends, hends', -⟩ | ⟨ends, node, hends, -, hends', -⟩ <;>
      rw [hends, hends']
    rfl
  rw [hsame, Connection.isDirect, Option.isNone_eq_false_iff, Option.isSome_iff_exists]

/-- **What is registered for a connection**, when it is found out and when it is measured, is
where it meets the fabric. -/
theorem entry_mem_iff_meets {net : Net} {name : String} {route : Route}
    (hc : p.IsConnection id net c) (hroute : p.routeOfNet r m.net = .ok route)
    (hmc : (p.measureConnection name route m.lengths c).outcome = .ok mc) :
    (.entry e n ∈ c.entries ∨
        .entry e n ∈ (p.measureConnection name route m.lengths c).events) ↔
      p.Meets r m mc e n := by
  obtain ⟨-, -, hends⟩ := endsOf_eq_ok_iff.mp hc.ends
  have hmeasures := measureConnection_eq_ok hmc
  have hdirect := hmeasures.isDirect_eq_false_iff
  obtain ⟨err, heq⟩ | ⟨mc', feeds, hfeeds, heq⟩ :=
    p.measureConnection_cases name route m.lengths c
  · rw [heq] at hmc
    cases hmc
  have hevents : .entry e n ∈ (p.measureConnection name route m.lengths c).events ↔
      e = .sink ∧ n ∈ feeds := by
    cases e <;> simp [heq]
  rw [hevents, Connection.mem_entries, hfeeds]
  constructor
  · rintro (⟨ends, hsome, rfl⟩ | ⟨rfl, ends, node, hsome, hnode, hfeed⟩)
    · obtain ⟨hexit, hentry⟩ := (hends ends).mp hsome
      cases e with
      | driver => exact .driver (hdirect.mpr ⟨ends, hsome⟩) (hmeasures.driver ▸ hentry)
      | sink => exact .projected (hdirect.mpr ⟨ends, hsome⟩) (hmeasures.sink ▸ hexit)
    · obtain ⟨hexit, -⟩ := (hends ends).mp hsome
      exact .rerouted (hdirect.mpr ⟨ends, hsome⟩) (hmeasures.sink ▸ hexit) hroute
        (hmeasures.sink ▸ hnode) hfeed
  · rintro (⟨hfabric, henters⟩ | ⟨hfabric, hexit⟩ | ⟨hfabric, hexit, hroute', hnode, hfeed⟩) <;>
      obtain ⟨ends, hsome⟩ := hdirect.mp hfabric <;>
      obtain ⟨hexit', hentry'⟩ := (hends ends).mp hsome
    · exact .inl ⟨ends, hsome, (hmeasures.driver ▸ henters).unique hentry'⟩
    · exact .inl ⟨ends, hsome, (hmeasures.sink ▸ hexit).unique hexit'⟩
    · rw [hroute, Except.ok.injEq] at hroute'
      subst hroute'
      have hsame := (hmeasures.sink ▸ hexit).unique hexit'
      exact .inr ⟨rfl, ends, _, hsome, hmeasures.sink ▸ hnode, hsame ▸ hfeed⟩

/-! ## A net -/

theorem events_connections_of_ok (h : (p.connections id).outcome = .ok cs) :
    (p.connections id).events = cs.flatMap Connection.entries := by
  obtain ⟨net, hnet, -⟩ := connections_eq_ok h
  cases hsource : net.source with
  | some source => exact events_connections (net_eq_ok.mp hnet) hsource h
  | none =>
    unfold connections at h ⊢
    rw [hnet] at h ⊢
    simp only [ofExcept_ok_bind, hsource] at h ⊢
    cases h
    rfl

/-- **What measuring a net registers** is where its connections meet the fabric. -/
theorem entry_mem_measureNet_iff (h : (p.measureNet w r id).outcome = .ok m) :
    .entry e n ∈ (p.measureNet w r id).events ↔ ∃ mc ∈ m.connections, p.Meets r m mc e n := by
  obtain ⟨cs, net, route, hcs, -, hroute, rfl, -, -, hmeasured, hevents⟩ := events_measureNet h
  obtain ⟨_, -, -, hconn⟩ := connections_eq_ok hcs
  rw [hevents, events_connections_of_ok hcs, events_mapM hmeasured]
  rw [outcome_mapM, mapM_eq_ok] at hmeasured
  simp only [List.mem_append, List.mem_flatMap, ← exists_or, ← and_or_left]
  constructor
  · rintro ⟨c, hc, hn⟩
    obtain ⟨mc, hmc, hcmc⟩ := exists_right_of_mem hmeasured hc
    exact ⟨mc, hmc, (entry_mem_iff_meets (hconn c hc) hroute hcmc).mp hn⟩
  · rintro ⟨mc, hmc, hn⟩
    obtain ⟨c, hc, hcmc⟩ := exists_left_of_mem hmeasured hmc
    exact ⟨c, hc, (entry_mem_iff_meets (hconn c hc) hroute hcmc).mpr hn⟩

/-- The ends of a measured connection are among the nodes where it meets the fabric. -/
theorem meets_ends (h : (p.measureNet w r id).outcome = .ok m) (hmc : mc ∈ m.connections)
    {ends : FabricEnds} (hends : mc.ends = some ends) (e : End) :
    p.Meets r m mc e (ends.node e) := by
  obtain ⟨cs, net, route, hcs, -, hroute, -, rfl, hall⟩ := measureNet_eq_ok h
  obtain ⟨c, hc, hcmc⟩ := exists_left_of_mem hall hmc
  obtain ⟨_, -, -, hconn⟩ := connections_eq_ok hcs
  have hfabric : mc.isDirect = false := by rw [Connection.isDirect, hends]; rfl
  rcases hcmc.length with ⟨-, hno, -⟩ | ⟨ends₀, node, hsome, hnode, hends', -⟩
  · rw [hends] at hno
    cases hno
  rw [hends, Option.some.injEq] at hends'
  subst hends'
  obtain ⟨-, -, hiff⟩ := endsOf_eq_ok_iff.mp (hconn c hc).ends
  obtain ⟨hexit, hentry⟩ := (hiff ends₀).mp hsome
  cases e with
  | driver => exact .driver hfabric (hcmc.driver ▸ hentry)
  | sink =>
    show p.Meets r m mc .sink (p.sinkEntry route m.lengths ends₀.sink node)
    unfold sinkEntry
    cases hfeed : p.reroutedFeed? route m.lengths ends₀.sink node with
    | none => exact .projected hfabric (hcmc.sink ▸ hexit)
    | some feed =>
      exact .rerouted hfabric (hcmc.sink ▸ hexit) hroute (hcmc.sink ▸ hnode) hfeed

/-! ## A design -/

/-- **A measurement on a register.** If it succeeds on one, it gives the same on any. Each node
of the register it hands on was registered before, or is where one of the measured connections
meets the fabric, and the ends of these are among the latter. To measure the design again, on
what has been handed on, gives the same and leaves the register and its counts as they are. -/
theorem measure_runOn {es₀ : Entries} (h : ((p.measure s r).runOn es₀).1 = .ok dm) (es : Entries) :
    let after := ((p.measure s r).runOn es).2
    ((p.measure s r).runOn es).1 = .ok dm ∧
    (∀ e n, n ∈ after.nodesAt e ↔
      n ∈ es.nodesAt e ∨ ∃ m ∈ dm.nets, ∃ mc ∈ m.connections, p.Meets r m mc e n) ∧
    (∀ m ∈ dm.nets, ∀ mc ∈ m.connections, ∀ ends, mc.ends = some ends →
      ∀ e, p.Meets r m mc e (ends.node e)) ∧
    (p.measure s r).runOn after = (.ok dm, after) ∧
    ((p.measure s r).runOn after).2.counts = after.counts := by
  intro after
  have hok : (p.measure s r).outcome = .ok dm := h
  have hafter : after = registerAll es (p.measure s r).events := rfl
  have hagain : (p.measure s r).runOn after = (.ok dm, after) :=
    Prod.ext hok (registerAll_registerAll es _)
  refine ⟨hok, fun e n => ?_, fun m hm mc hmc ends hends e => ?_, hagain, by rw [hagain]⟩
  · rw [hafter, Entries.mem_nodesAt_registerAll, mem_events_measure_iff hok]
    refine or_congr_right ?_
    simp only [mem_nets_of_measure hok]
    constructor
    · rintro ⟨id, ha, hn⟩
      obtain ⟨m, hm⟩ := exists_measureNet hok ha
      exact ⟨m, ⟨id, ha, hm⟩, (entry_mem_measureNet_iff hm).mp hn⟩
    · rintro ⟨m, ⟨id, ha, hm⟩, hn⟩
      exact ⟨id, ha, (entry_mem_measureNet_iff hm).mpr hn⟩
  · obtain ⟨id, -, hid⟩ := (mem_nets_of_measure hok).mp hm
    exact meets_ends hid hmc hends e

/-- A route that comes through another node to the sink than the one it projects onto, measured
on a register that knows two of the nodes for the other end: both nodes are registered for the
sink, and when the route is measured again no node is added. -/
theorem measure_throughOtherFeed :
    let pass := twoFeeds.measure {} throughOtherFeed
    let before : Entries := ⟨IdSet.ofList [.ofIndex 6], IdSet.ofList [.ofIndex 1]⟩
    let after : Entries := ⟨IdSet.ofList [.ofIndex 1, .ofIndex 6],
      IdSet.ofList [.ofIndex 1, .ofIndex 3, .ofIndex 6]⟩
    ∃ dm, (pass.runOn {}).1 = .ok dm ∧ pass.runOn before = (.ok dm, after) ∧
      pass.runOn after = (.ok dm, after) ∧ after.counts = ⟨3, 2, 3⟩ := by
  intro pass before after
  have hmeasured : (pass.runOn {}).1.map (fun dm => dm.connections.length) = .ok 1 := by
    decide +kernel
  obtain ⟨dm, hdm, -⟩ := map_eq_ok.mp hmeasured
  obtain ⟨hbefore, -, -, hagain, -⟩ := measure_runOn hdm before
  have hafter : (pass.runOn before).2 = after := by decide +kernel
  rw [hafter] at hagain
  exact ⟨dm, hdm, Prod.ext hbefore hafter, hagain, by decide +kernel⟩

end Placement

end HoldMargin
