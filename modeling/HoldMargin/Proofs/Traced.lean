import HoldMargin.Proofs.Measured
/-!
# What measuring leaves behind

Measuring registers nodes and reports sinks. The ends of connections are
registered when the connections are found out. Measuring a connection registers
at most the node its route comes through, for the sink, and reports the sink if it
is not reached (`Placement.measureConnection_cases`).

A design leaves behind what its nets do (`Placement.mem_events_measure_iff`). So the
sinks that are reported can be read off the result of a measurement
(`Placement.findingsOf_measure`), and the nodes that are registered for drivers
are the same for all routings (`Placement.driverEntry_mem_measure_iff`).
-/

namespace HoldMargin

namespace Pass

variable {α β : Type} {es es' : List Event} {x : Pass α} {f : α → Pass β}

/-! ## Findings among events -/

theorem mem_findingsOf {g : Finding} : g ∈ findingsOf es ↔ .finding g ∈ es := by
  simp only [findingsOf, List.mem_filterMap]
  constructor
  · rintro ⟨e | g', hmem, hg⟩
    · cases hg
    · cases hg
      exact hmem
  · exact fun hmem => ⟨_, hmem, rfl⟩

@[simp] theorem findingsOf_append : findingsOf (es ++ es') = findingsOf es ++ findingsOf es' := by
  simp [findingsOf]

@[simp] theorem findingsOf_silent : findingsOf (silent es) = [] := by
  simp only [findingsOf, silent, List.filterMap_eq_nil_iff, List.mem_filter]
  rintro (⟨e, n⟩ | f) ⟨-, h⟩
  · rfl
  · cases h

@[simp] theorem findingsOf_map_finding (fs : List Finding) :
    findingsOf (fs.map .finding) = fs := by
  simp [findingsOf, List.filterMap_map]

@[simp] theorem findingsOf_map_entry (e : End) (ns : List NodeId) :
    findingsOf (ns.map (.entry e)) = [] := by
  simp [findingsOf, List.filterMap_map]

/-- **The findings of a list of passes** are those of its members, as their results
tell. -/
theorem findingsOf_mapM {g : β → List Finding} {xs : List α} {ys : List β}
    (h : (xs.mapM f).outcome = .ok ys)
    (hg : ∀ x y, (f x).outcome = .ok y → findingsOf (f x).events = g y) :
    findingsOf (xs.mapM f).events = ys.flatMap g := by
  rw [events_mapM h]
  rw [outcome_mapM, mapM_eq_ok] at h
  induction h with
  | nil => rfl
  | cons hy _ ih => rw [List.flatMap_cons, findingsOf_append, ih, hg _ _ hy, List.flatMap_cons]

/-! ## Events of passes that may have stopped -/

theorem mem_events_bind {ev : Event} :
    ev ∈ (x >>= f).events ↔ ev ∈ x.events ∨ ∃ a, x.outcome = .ok a ∧ ev ∈ (f a).events := by
  show ev ∈ (Pass.bind x f).events ↔ _
  unfold Pass.bind
  split
  · rename_i a ha
    simp [ha]
  · rename_i e he
    simp [he]

theorem mem_events_ofExcept_bind {o : Except PassError α} {ev : Event} :
    ev ∈ (Pass.ofExcept o >>= f).events ↔ ∃ a, o = .ok a ∧ ev ∈ (f a).events := by
  rw [mem_events_bind]
  exact or_iff_right List.not_mem_nil

/-- What a list of passes has left was left by one of them. -/
theorem exists_of_mem_events_mapM {xs : List α} {ev : Event} (h : ev ∈ (xs.mapM f).events) :
    ∃ x ∈ xs, ev ∈ (f x).events := by
  induction xs with
  | nil => cases h
  | cons x xs ih =>
    rw [List.mapM_cons] at h
    rcases mem_events_bind.mp h with h | ⟨y, -, h⟩
    · exact ⟨x, List.mem_cons_self, h⟩
    rcases mem_events_bind.mp h with h | ⟨ys, -, h⟩
    · obtain ⟨z, hz, hev⟩ := ih h
      exact ⟨z, List.mem_cons_of_mem _ hz, hev⟩
    · cases h

end Pass

open Pass

/-- Whether a finding reports that a sink is not reached, from some driver. -/
def UnreachedSink.IsReportedBy (u : UnreachedSink) (f : Finding) : Prop :=
  ∃ driver, f = {
    severity := .warning
    code := .sinkNotReached
    message := s!"net {u.net} is not fully routed"
    location := .connection u.net driver u.sink }

namespace Placement

variable {p : Placement} {s : Settings} {w : Weighting} {r : Routing} {id : NetId}
  {c : Connection} {cs : List Connection} {m : MeasuredNet} {dm : Measurement} {n : NodeId}

/-! ## The connections of a net -/

theorem findingsOf_connect {net : Net} {source sink : PinId} {index : Nat}
    (h : (p.connect id net source index sink).outcome = .ok c) :
    findingsOf (p.connect id net source index sink).events = [] := by
  unfold connect at h ⊢
  obtain ⟨driver, -, h, hevents⟩ := exists_of_ofExcept_bind h
  obtain ⟨ends, -, h, hevents'⟩ := exists_of_ofExcept_bind h
  rw [hevents, hevents']
  cases ends <;> rfl

/-- Finding out the connections of a net reports nothing. -/
theorem findingsOf_connections (h : (p.connections id).outcome = .ok cs) :
    findingsOf (p.connections id).events = [] := by
  unfold connections at h ⊢
  obtain ⟨net, -, h, hevents⟩ := exists_of_ofExcept_bind h
  rw [hevents]
  split at h
  · rw [findingsOf_mapM (g := fun _ => []) h fun _ _ hc => findingsOf_connect hc]
    simp
  · rfl

/-! ## One connection -/

/-- What there is to report of the measured connections of a net. -/
def warningsOf (p : Placement) (net : String) (cs : List MeasuredConnection) : List Finding :=
  (cs.filter fun c => !c.isDirect && c.length.isNone).map fun c =>
    p.unreachedFinding net c.toConnection

theorem warningsOf_eq_flatMap (net : String) (cs : List MeasuredConnection) :
    p.warningsOf net cs = cs.flatMap fun c => p.warningsOf net [c] := by
  unfold warningsOf
  induction cs with
  | nil => rfl
  | cons c cs ih => rw [List.filter_cons, List.flatMap_cons, ← ih]; split <;> simp [*]

/-- What is reported of the connections stands beside the list of their sinks. -/
theorem forall₂_warningsOf (net : String) (cs : List MeasuredConnection) :
    List.Forall₂ UnreachedSink.IsReportedBy (p.unreachedSinks net cs) (p.warningsOf net cs) := by
  unfold unreachedSinks warningsOf
  rw [List.forall₂_map_left_iff, List.forall₂_map_right_iff, List.forall₂_same]
  exact fun c _ => ⟨p.label c.driver, rfl⟩

/-- **Measuring a connection** leaves nothing if it stops, and else it registers for the
sink the node that the route comes through, if that counts, and reports what there is to
report of the result. -/
theorem measureConnection_cases (p : Placement) (name : String) (route : Route) (ls : Lengths)
    (c : Connection) :
    (∃ e, p.measureConnection name route ls c = ⟨[], .error e⟩) ∨
      ∃ (mc : MeasuredConnection) (feeds : List NodeId),
        (∀ n, n ∈ feeds ↔ ∃ ends node, c.ends = some ends ∧ p.pinNode c.sink = .ok node ∧
          p.reroutedFeed? route ls ends.sink node = some n) ∧
        p.measureConnection name route ls c =
          ⟨feeds.map (.entry .sink) ++ (p.warningsOf name [mc]).map .finding, .ok mc⟩ := by
  unfold measureConnection
  split
  · rename_i hends
    refine .inr ⟨{ c with length := none }, [], ?_, ?_⟩
    · simp [hends]
    · simp [warningsOf, Connection.isDirect, hends, Pure.pure, Pass.pure]
  · rename_i ends hends
    cases hnode : p.pinNode c.sink with
    | error e => exact .inl ⟨e, rfl⟩
    | ok node =>
      let sink := p.sinkEntry route ls ends.sink node
      refine .inr ⟨{ c with ends := some { ends with sink }, length := ls.get? sink },
        (p.reroutedFeed? route ls ends.sink node).toList, ?_, ?_⟩
      · simp [hends, Option.mem_toList]
      show Pass.bind (Pass.ofExcept (.ok node)) _ = _
      simp only [Pass.bind, Pass.ofExcept, sink, sinkEntry]
      generalize p.reroutedFeed? route ls ends.sink node = feed
      cases feed with
      | none =>
        simp only [Option.getD_none]
        cases ls.get? ends.sink <;> rfl
      | some feed =>
        simp only [Option.getD_some]
        cases ls.get? feed <;> rfl

/-- **A connection is reported** exactly if it has to be. -/
theorem findingsOf_measureConnection {name : String} {route : Route} {ls : Lengths}
    {mc : MeasuredConnection} (h : (p.measureConnection name route ls c).outcome = .ok mc) :
    findingsOf (p.measureConnection name route ls c).events = p.warningsOf name [mc] := by
  rcases p.measureConnection_cases name route ls c with ⟨e, heq⟩ | ⟨mc', feeds, -, heq⟩
  · rw [heq] at h
    cases h
  · rw [heq] at h ⊢
    cases h
    simp

/-- Measuring a connection registers nothing for its driver. -/
theorem driverEntry_not_mem_measureConnection (name : String) (route : Route) (ls : Lengths)
    (c : Connection) : .entry .driver n ∉ (p.measureConnection name route ls c).events := by
  rcases p.measureConnection_cases name route ls c with ⟨e, heq⟩ | ⟨mc', feeds, -, heq⟩ <;>
    simp [heq]

/-! ## A net -/

/-- **Measuring a net** leaves what finding out its connections does, and then what measuring
each of them does. -/
theorem events_measureNet (h : (p.measureNet w r id).outcome = .ok m) :
    ∃ cs net route, (p.connections id).outcome = .ok cs ∧ p.net id = .ok net ∧
      p.routeOfNet r id = .ok route ∧ m.net = id ∧ m.name = net.name ∧
      m.unreached = p.unreachedSinks net.name m.connections ∧
      (cs.mapM (p.measureConnection net.name route m.lengths)).outcome = .ok m.connections ∧
      (p.measureNet w r id).events = (p.connections id).events ++
        (cs.mapM (p.measureConnection net.name route m.lengths)).events := by
  unfold measureNet at h ⊢
  obtain ⟨cs, hcs, h, hevents⟩ := exists_of_bind h
  obtain ⟨net, hnet, h, hevents₁⟩ := exists_of_ofExcept_bind h
  obtain ⟨route, hroute, h, hevents₂⟩ := exists_of_ofExcept_bind h
  obtain ⟨ls, -, h, hevents₃⟩ := exists_of_ofExcept_bind h
  obtain ⟨usage, -, h, hevents₄⟩ := exists_of_ofExcept_bind h
  obtain ⟨measured, hmeasured, h, hevents₅⟩ := exists_of_bind h
  cases h
  refine ⟨cs, net, route, hcs, hnet, hroute, rfl, rfl, rfl, hmeasured, ?_⟩
  rw [hevents, hevents₁, hevents₂, hevents₃, hevents₄, hevents₅]
  exact congrArg _ (List.append_nil _)

/-- **What is reported of a net** is what there is to report of its measured
connections. -/
theorem findingsOf_measureNet (h : (p.measureNet w r id).outcome = .ok m) :
    findingsOf (p.measureNet w r id).events = p.warningsOf m.name m.connections ∧
      m.unreached = p.unreachedSinks m.name m.connections := by
  obtain ⟨cs, net, route, hcs, -, -, -, hname, hunreached, hmeasured, hevents⟩ :=
    events_measureNet h
  rw [hname]
  refine ⟨?_, hunreached⟩
  rw [hevents, findingsOf_append, findingsOf_connections hcs, List.nil_append,
    findingsOf_mapM hmeasured fun _ _ hc => findingsOf_measureConnection hc,
    ← warningsOf_eq_flatMap]

/-- **What measuring a net registers for drivers** is what finding out its
connections does. -/
theorem driverEntry_mem_measureNet_iff :
    .entry .driver n ∈ (p.measureNet w r id).events ↔
      .entry .driver n ∈ (p.connections id).events := by
  constructor
  · intro h
    rcases mem_events_bind.mp h with h | ⟨cs, -, h⟩
    · exact h
    obtain ⟨net, -, h⟩ := mem_events_ofExcept_bind.mp h
    obtain ⟨route, -, h⟩ := mem_events_ofExcept_bind.mp h
    obtain ⟨ls, -, h⟩ := mem_events_ofExcept_bind.mp h
    obtain ⟨usage, -, h⟩ := mem_events_ofExcept_bind.mp h
    rcases mem_events_bind.mp h with h | ⟨measured, -, h⟩
    · obtain ⟨c, -, h⟩ := exists_of_mem_events_mapM h
      exact absurd h (driverEntry_not_mem_measureConnection _ _ _ c)
    · cases h
  · exact fun h => mem_events_bind.mpr (.inl h)

/-! ## A design -/

/-- What there is to report of a measured design. -/
def warnings (p : Placement) (dm : Measurement) : List Finding :=
  dm.nets.flatMap fun m => p.warningsOf m.name m.connections

/-- The sinks that are not reached stand beside what is reported of them. -/
theorem forall₂_warnings (h : (p.measure s r).outcome = .ok dm) :
    List.Forall₂ UnreachedSink.IsReportedBy dm.unreached (p.warnings dm) := by
  have hunreached : dm.unreached = dm.nets.flatMap fun m => p.unreachedSinks m.name m.connections := by
    refine List.flatMap_congr fun m hm => ?_
    obtain ⟨id, -, hid⟩ := (mem_nets_of_measure h).mp hm
    exact (findingsOf_measureNet hid).2
  rw [hunreached, warnings]
  refine List.rel_flatMap (R := Eq) (List.forall₂_refl _) ?_
  rintro m _ rfl
  exact forall₂_warningsOf m.name m.connections

theorem findingsOf_measureAnalyzed {o : Option MeasuredNet}
    (h : (p.measureAnalyzed s r id).outcome = .ok o) :
    findingsOf (p.measureAnalyzed s r id).events =
      p.warnings { nets := o.toList } := by
  unfold measureAnalyzed at h ⊢
  obtain ⟨analyzed, -, h, hevents⟩ := exists_of_ofExcept_bind h
  rw [hevents]
  cases analyzed with
  | false =>
    cases h
    rfl
  | true =>
    simp only [if_true] at h ⊢
    obtain ⟨m, hm, h, hevents⟩ := exists_of_bind h
    rw [hevents, findingsOf_append, (findingsOf_measureNet hm).1]
    cases h
    simp [warnings, Pure.pure, Pass.pure, findingsOf]

/-- **What is reported of a design** can be read off its measurement. -/
theorem findingsOf_measure (h : (p.measure s r).outcome = .ok dm) :
    findingsOf (p.measure s r).events = p.warnings dm := by
  unfold measure at h ⊢
  obtain ⟨os, hos, h, hevents⟩ := exists_of_bind h
  rw [hevents, findingsOf_append, findingsOf_mapM hos fun _ _ ho => findingsOf_measureAnalyzed ho]
  cases h
  simp only [warnings, List.filterMap_eq_flatMap_toList, List.flatMap_assoc]
  exact List.append_nil _

/-! ## What is registered -/

theorem mem_events_measureAnalyzed_iff {ev : Event} :
    ev ∈ (p.measureAnalyzed s r id).events ↔
      p.isAnalyzed s id = .ok true ∧ ev ∈ (p.measureNet s.weighting r id).events := by
  unfold measureAnalyzed
  rw [mem_events_ofExcept_bind]
  constructor
  · rintro ⟨analyzed, ha, h⟩
    cases analyzed with
    | false => cases h
    | true =>
      simp only [if_true] at h
      rcases mem_events_bind.mp h with h | ⟨m, -, h⟩
      · exact ⟨ha, h⟩
      · cases h
  · rintro ⟨ha, h⟩
    refine ⟨true, ha, ?_⟩
    simp only [if_true]
    exact mem_events_bind.mpr (.inl h)

/-- **What measuring a design leaves behind** is what measuring its nets does. -/
theorem mem_events_measure_iff (h : (p.measure s r).outcome = .ok dm) {ev : Event} :
    ev ∈ (p.measure s r).events ↔
      ∃ id, p.Analyzes s id ∧ ev ∈ (p.measureNet s.weighting r id).events := by
  have hevents : (p.measure s r).events =
      p.netlist.nets.toList.flatMap fun net => (p.measureAnalyzed s r net.id).events := by
    unfold measure at h ⊢
    obtain ⟨os, hos, -, hevents⟩ := exists_of_bind h
    rw [hevents, events_mapM hos]
    exact List.append_nil _
  simp only [hevents, List.mem_flatMap, mem_events_measureAnalyzed_iff, Array.mem_toList_iff]
  constructor
  · rintro ⟨net, hnet, ha, hn⟩
    exact ⟨net.id, ⟨ha, net, hnet, rfl⟩, hn⟩
  · rintro ⟨_, ⟨ha, net, hnet, rfl⟩, hn⟩
    exact ⟨net, hnet, ha, hn⟩

/-- **What measuring a design registers for drivers** does not depend on the
routing. -/
theorem driverEntry_mem_measure_iff (h : (p.measure s r).outcome = .ok dm) :
    .entry .driver n ∈ (p.measure s r).events ↔
      ∃ id, p.Analyzes s id ∧ .entry .driver n ∈ (p.connections id).events := by
  simp only [mem_events_measure_iff h, driverEntry_mem_measureNet_iff]

end Placement

end HoldMargin
