import HoldMargin.Proofs.Delivered
import HoldMargin.Proofs.Warranted
/-!
# What routes name is there

On a valid device an edge that is known has both its ends, so that a node that
a route touches is always there (`Device.Coherent.exists_node_of_touches`).
And the maze router commits no edges but those it has found in the device:
against the routing that a session began with, all that is new is known
(`Device.KnowsNew`), after every round and also where the previous route is
put back. An error is warranted, so one that names an unknown edge names an
edge that was loaded with the design (`Snapshot.unknown_was_loaded`).
-/

namespace HoldMargin

namespace Device

variable {d : Device} {r r' r'' : Routing} {net : NetId} {es : EdgeSet}

/-- On a device whose tables fit together, what edges touch is there. -/
theorem Coherent.exists_node_of_touches (h : d.Coherent) {n : NodeId} (ht : d.Touches es n) :
    ∃ node, d.node? n = some node := by
  have hends : ∀ u v, d.Leads es u v →
      (∃ node, d.node? u = some node) ∧ ∃ node, d.node? v = some node := by
    rintro u v ⟨i, -, e, he, rfl, rfl⟩
    obtain ⟨⟨src, hsrc, hsrcid⟩, ⟨dst, hdst, hdstid⟩⟩ :=
      h.endsOfEdge e (Array.mem_of_getElem? he)
    exact ⟨⟨src, hsrcid ▸ h.nodesInPlace.getElem?_id hsrc⟩,
      ⟨dst, hdstid ▸ h.nodesInPlace.getElem?_id hdst⟩⟩
  obtain ⟨m, hl | hl⟩ := ht
  · exact (hends n m hl).1
  · exact (hends m n hl).2

theorem edge?_eq_none_iff {i : EdgeId} : d.edge? i = none ↔ d.edges.size ≤ i.index :=
  Array.getElem?_eq_none_iff

theorem exists_edge_iff {i : EdgeId} : (∃ e, d.edge? i = some e) ↔ i.index < d.edges.size := by
  rw [← Option.ne_none_iff_exists', ne_eq, edge?_eq_none_iff, Nat.not_le]

/-- **The device knows what is new** in the routing `r'`, as against `r`. -/
def KnowsNew (d : Device) (r r' : Routing) : Prop :=
  ∀ k, ∀ i ∈ r'.entry k, i ∈ r.entry k ∨ ∃ e, d.edge? i = some e

namespace KnowsNew

theorem refl (d : Device) (r : Routing) : d.KnowsNew r r := fun _ _ => .inl

theorem trans (h : d.KnowsNew r r') (h' : d.KnowsNew r' r'') : d.KnowsNew r r'' := by
  intro k i hi
  rcases h' k i hi with hi | hknown
  · exact h k i hi
  · exact .inr hknown

/-- Another route for one net may have edges that it had before and known ones. -/
theorem set (h : d.KnowsNew r r')
    (hnet : ∀ i ∈ es, i ∈ r.of net ∨ ∃ e, d.edge? i = some e) : d.KnowsNew r (r'.set net es) := by
  intro k i hi
  rw [Routing.entry_set] at hi
  split at hi
  · rename_i hk
    rw [hk]
    exact hnet i hi
  · exact h k i hi

end KnowsNew

end Device

/-! ## What the maze router commits -/

namespace Placement

variable {p : Placement} {limit : Nat} {net : NetId} {avoid : NodeSet}

theorem knows_pathToSink (hd : p.device.Ready) {o : Occupancy} {r : Routing} {sink : PinId}
    {path : List EdgeId} (h : p.pathToSink limit o r net avoid sink = .ok path) :
    ∀ i ∈ path, ∃ e, p.device.edge? i = some e := by
  rcases pathToSink_cases h with ⟨rfl, -⟩ | ⟨target, query, -, -, hsearch⟩
  · exact fun i hi => absurd hi List.not_mem_nil
  · obtain ⟨source, -, hpath, -⟩ := PathQuery.search_eq_ok hd hsearch
    exact hpath.knows

theorem knowsNew_routeSinks (hd : p.device.Ready) (sinks : List PinId) (o : Occupancy)
    (r : Routing) : p.device.KnowsNew r (p.routeSinks limit net avoid sinks o r).1 := by
  induction sinks generalizing o r with
  | nil => exact .refl _ r
  | cons sink sinks ih =>
    rw [routeSinks]
    split
    · exact .refl _ r
    · rename_i path hpath
      have hset : p.device.KnowsNew r (r.set net ((r.of net).union path)) :=
        (Device.KnowsNew.refl _ r).set fun i hi =>
          (IdSet.mem_union.mp hi).imp id (knows_pathToSink hd hpath i)
      exact hset.trans (ih _ _)

end Placement

/-- **The maze router commits edges that the device knows**, whatever it is asked. -/
theorem mazeRouter_knowsNew {p : Placement} (hd : p.device.Ready) (limit : Nat) (r : Routing)
    (request : RouteRequest) :
    p.device.KnowsNew r ((mazeRouter limit).route p () r request).routing := by
  simp only [mazeRouter]
  split
  · exact .refl _ r
  · exact Placement.knowsNew_routeSinks hd _ _ r

/-! ## Sessions -/

namespace Repairer

variable {rp : Repairer Unit} {limit : Nat} {c : Ranked} {kept : NodeSet}
  {loaded before : Routing} {pg pg' : Progress Unit}

/-- **A repair of a connection that commits known edges only**, round by round, in a
session that began with the routing `loaded`. -/
structure CommitsKnown (rp : Repairer Unit) (loaded : Routing) (pg : Progress Unit) : Prop where
  routing : rp.placement.device.KnowsNew loaded pg.routing
  rounds : ∀ rd ∈ pg.rounds, rp.placement.device.KnowsNew rd.cut rd.after

theorem CommitsKnown.round (hrouter : rp.router = mazeRouter limit)
    (hd : rp.placement.device.Ready) (h : rp.CommitsKnown loaded pg) {res : RoundResult}
    (hround : rp.round c kept pg = (pg', res)) : rp.CommitsKnown loaded pg' := by
  rcases round_cases hround with ⟨rfl, -⟩ | ⟨branch, nodes, rd, reply, ha, -⟩
  · exact h
  · have hafter : rp.placement.device.KnowsNew rd.cut rd.after := by
      rw [ha.after, ha.asked, hrouter]
      exact mazeRouter_knowsNew hd limit rd.cut _
    have hcut : rp.placement.device.KnowsNew pg.routing rd.cut := by
      rw [ha.cut]
      exact (Device.KnowsNew.refl _ _).set fun i hi => .inl (IdSet.mem_diff.mp hi).1
    refine ⟨?_, ha.forall_rounds h.rounds hafter⟩
    rw [ha.routing, ← ha.after]
    exact h.routing.trans (hcut.trans hafter)

theorem CommitsKnown.giveUp (h : rp.CommitsKnown loaded pg)
    (hbefore : rp.placement.device.KnowsNew loaded before) (lengthAfter : Option Nat)
    (reason : RepairFailure) :
    rp.CommitsKnown loaded (rp.giveUp c before pg lengthAfter reason).1 := by
  rcases giveUp_cases pg lengthAfter reason with ⟨e, -, heq⟩ | ⟨record, -, -, heq⟩
  · rw [heq]
    exact h
  · rw [heq]
    refine ⟨?_, h.rounds⟩
    dsimp only
    split
    · exact h.routing.set fun i hi => hbefore c.net.index i hi
    · exact h.routing

/-- **The repair of a connection commits known edges only.** -/
theorem commitsKnown_repairOne (hrouter : rp.router = mazeRouter limit)
    (hd : rp.placement.device.Ready) (hbefore : rp.placement.device.KnowsNew loaded before)
    {state : Unit} {out : RepairOutcome} (h : rp.repairOne c state before = (pg, out)) :
    rp.CommitsKnown loaded pg := by
  have hstart : rp.CommitsKnown loaded { state, routing := before } :=
    ⟨hbefore, fun rd hno => absurd hno List.not_mem_nil⟩
  rcases repairOne_cases h with ⟨e, -, rfl, -⟩ | ⟨kept, -, heq⟩
  · exact hstart
  · have hends : rp.CommitsKnown loaded (rp.rounds c kept before { state, routing := before }
        (rp.settings.repair.maxAttempts - 1)).1 := by
      refine rounds_rule (P := rp.CommitsKnown loaded)
        (Q := fun end_ => rp.CommitsKnown loaded end_.1) ?_ ?_ ?_ ?_ ?_ _ hstart _
      · exact fun _ _ _ hpg hround => hpg.round hrouter hd hround
      · exact fun _ _ hpg hround => (hpg.round hrouter hd hround).giveUp hbefore _ _
      · exact fun _ _ _ hpg hround => (hpg.round hrouter hd hround).giveUp hbefore _ _
      · exact fun _ _ _ _ hpg hround _ => hpg.round hrouter hd hround
      · intro pg pg' length grew hpg hround _
        have hpg' := hpg.round hrouter hd hround
        exact ⟨hpg', fun _ _ => hpg'.giveUp hbefore _ _⟩
    rw [heq] at hends
    exact hends

theorem Picked.knowsNew {s s' : Session Unit} {out : RepairOutcome}
    (hp : rp.Picked s c s' pg out) (hrouter : rp.router = mazeRouter limit)
    (hd : rp.placement.device.Ready) (hs : rp.placement.device.KnowsNew loaded s.routing) :
    rp.placement.device.KnowsNew loaded s'.routing :=
  hp.routing ▸ (commitsKnown_repairOne hrouter hd hs hp.repaired).routing

variable (rp) in
/-- **A session commits known edges only**, also if it is stopped. -/
theorem knowsNew_repair (hrouter : rp.router = mazeRouter limit)
    (hd : rp.placement.device.Ready) (loaded : Routing) :
    rp.placement.device.KnowsNew loaded (rp.repair () loaded).routing ∧
      ∀ pick ∈ (rp.repair () loaded).picks, ∀ rd ∈ pick.rounds,
        rp.placement.device.KnowsNew rd.cut rd.after := by
  constructor
  · rcases repair_cases rp () loaded with ⟨e, -, hrouting, -, -⟩ | ⟨m, -, hlast⟩
    · rw [hrouting]
      exact .refl _ loaded
    rw [hlast]
    refine run_rule (I := fun s => rp.placement.device.KnowsNew loaded s.routing)
      (E := fun last => rp.placement.device.KnowsNew loaded last.1.routing) ?_ (fun _ hs _ => hs)
      (fun _ _ _ hs _ _ => hs) (fun _ _ _ hs _ _ _ => hs) _ (.refl _ loaded)
    intro s c rest s' stop hs _ _ _ hpick
    obtain ⟨pg, out, hp, -⟩ := pick_cases hpick
    have hs' := hp.knowsNew hrouter hd hs
    cases stop with
    | none => exact hs'
    | some e => exact hs'
  · refine picks_rule (I := fun s => rp.placement.device.KnowsNew loaded s.routing) () loaded
      (fun _ _ => .refl _ loaded) ?_ ?_
    · intro s c rest s' hs _ hpick
      obtain ⟨pg, out, hp, -⟩ := pick_cases hpick
      exact hp.knowsNew hrouter hd hs
    · intro s c rest s' pg out hs _ hp
      exact (commitsKnown_repairOne hrouter hd hs hp.repaired).rounds

end Repairer

/-! ## Snapshots -/

namespace Snapshot

variable {text : String} {s : Snapshot}

theorem Indexed.ready (h : s.Indexed) : s.device.Ready := h.device ▸ Device.ready_reindex h.valid

/-- What a routing that adds known edges warrants against the device was wrong when
the design was loaded. -/
theorem Indexed.loaded_of_warrants (h : s.Indexed) {loaded r : Routing} {e : PassError}
    (hknown : s.device.KnowsNew loaded r) (hw : s.placement.Warrants r e) :
    (∀ name m, e ≠ .unknownNode name m) ∧
      ∀ name i, e = .unknownEdge name i → ∃ k net, s.design.netlist.nets[k]? = some net ∧
        net.name = name ∧ i ∈ loaded.entry k ∧ s.device.edges.size ≤ i.index := by
  cases hw with
  | unknownNode hnet ht hnone =>
    have hcoherent := Device.validate_eq_ok_iff_coherent.mp h.valid
    obtain ⟨node, hnode⟩ := hcoherent.exists_node_of_touches ht
    have hcontra := hnone.symm.trans hnode
    cases hcontra
  | @unknownEdge k net i hnet hi hnone =>
    refine ⟨fun _ _ => PassError.noConfusion, fun name j he => ?_⟩
    cases he
    rcases hknown k i hi with hi | ⟨e, he⟩
    · exact ⟨k, net, hnet, rfl, hi, Device.edge?_eq_none_iff.mp hnone⟩
    · have hcontra := hnone.symm.trans he
      cases hcontra
  | _ => exact ⟨fun _ _ => PassError.noConfusion, fun _ _ => PassError.noConfusion⟩

/-- **What a snapshot names is there**, as soon as it has been read. Measuring its design
and repairing it never stop at a node that the device does not have; they stop at an
edge that it does not have only if a net of the design has been loaded with it. What
the router commits in a round, and so what the design has in the end besides what was
loaded, are edges of the device. -/
theorem unknown_was_loaded (h : ofText text = .ok s) (settings : Settings) (limit : Nat) :
    let p := s.placement
    let loaded := s.design.routing
    let repaired := (p.mazeRepairer settings limit).repair () loaded
    (∀ e, (p.measure settings loaded).outcome = .error e ∨ repaired.outcome = .error e →
      (∀ name m, e ≠ .unknownNode name m) ∧
        ∀ name i, e = .unknownEdge name i → ∃ k net, p.netlist.nets[k]? = some net ∧
          net.name = name ∧ i ∈ loaded.entry k ∧ p.device.edges.size ≤ i.index) ∧
      (∀ pick ∈ repaired.picks, ∀ rd ∈ pick.rounds, ∀ net, ∀ i ∈ rd.after.of net,
        i ∈ rd.cut.of net ∨ i.index < p.device.edges.size) ∧
      ∀ net, ∀ i ∈ repaired.routing.of net,
        i ∈ loaded.of net ∨ i.index < p.device.edges.size := by
  intro p loaded repaired
  have hindexed := indexed_of_ofText h
  obtain ⟨hrouting, hrounds⟩ :=
    (p.mazeRepairer settings limit).knowsNew_repair rfl hindexed.ready loaded
  have hnew : ∀ {r r' : Routing}, p.device.KnowsNew r r' → ∀ net, ∀ i ∈ r'.of net,
      i ∈ r.of net ∨ i.index < p.device.edges.size := fun hknown net i hi =>
    (hknown net.index i hi).imp id Device.exists_edge_iff.mp
  refine ⟨fun e he => ?_, fun pick hpick rd hrd => hnew (hrounds pick hpick rd hrd), hnew hrouting⟩
  rcases he with he | he
  · exact hindexed.loaded_of_warrants (.refl _ _) (Placement.failsOnly_measure settings e he)
  · rcases Repairer.halts_of_repair (mazeRouter_truthful limit) he with hw | ⟨id, hloops⟩
    · exact hindexed.loaded_of_warrants hrouting hw
    · cases hloops
      exact ⟨fun _ _ => PassError.noConfusion, fun _ _ => PassError.noConfusion⟩

/-! ### An edge too many

The short ways, beside a clock net that has an edge which the device does not
have. The net is not measured, so it is the router that comes across it. -/

/-- The short ways and a clock net with an unknown edge. -/
def strayEdge : Snapshot where
  device := Placement.twoSinks.device
  design := {
    netlist := { Placement.twoSinks.netlist with
      nets := Placement.twoSinks.netlist.nets.push {
        id := .ofIndex 1, name := "c", kind := .clock, source := none, alternateSource := none
        sinks := [] } }.reindex
    routing := Placement.shortWays.set (.ofIndex 1) (IdSet.ofList [.ofIndex 9]) }

theorem indexed_strayEdge : strayEdge.Indexed :=
  ⟨Placement.ready_twoSinks.indexed, by decide +kernel, rfl⟩

/-- The snapshot as it is read. -/
def openedStrayEdge : Snapshot where
  device := strayEdge.device
  design := strayEdge.design.written.reindex

theorem outcome_openedStrayEdge :
    ((openedStrayEdge.placement.mazeRepairer {} 1000).repair ()
      openedStrayEdge.design.routing).outcome = .error (.unknownEdge "c" (.ofIndex 9)) := by
  rw [Repairer.repair_eq_insertionSort]
  decide +kernel

theorem strayEdge_was_loaded :
    ofText strayEdge.text = .ok openedStrayEdge ∧
      (openedStrayEdge.placement.measure {} openedStrayEdge.design.routing).outcome.isOk = true ∧
      ((openedStrayEdge.placement.mazeRepairer {} 1000).repair ()
        openedStrayEdge.design.routing).outcome = .error (.unknownEdge "c" (.ofIndex 9)) ∧
      ∃ k net, openedStrayEdge.design.netlist.nets[k]? = some net ∧ net.name = "c" ∧
        .ofIndex 9 ∈ openedStrayEdge.design.routing.entry k ∧
        openedStrayEdge.device.edges.size ≤ 9 := by
  have hread : ofText strayEdge.text = .ok openedStrayEdge := ofText_of_indexed indexed_strayEdge
  obtain ⟨hstops, -⟩ := unknown_was_loaded hread {} 1000
  exact ⟨hread, by decide +kernel, outcome_openedStrayEdge,
    (hstops _ (.inr outcome_openedStrayEdge)).2 "c" (.ofIndex 9) rfl⟩

end Snapshot

end HoldMargin
