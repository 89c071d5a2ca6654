import HoldMargin.Proofs.Listed
import HoldMargin.Proofs.Supplied
import Mathlib.Data.List.Sort
/-!
# Small placements

A placement may be sketched by its nodes, its edges and the nodes of the
sinks of its only net (`Placement.sketch`). Edges that lead from earlier
nodes to later ones are a forest if they enter no node twice
(`Device.Descends`), and a route without loose ends if moreover each starts
at a root or where another one arrives (`Device.Rooted`); both can be read
off the edges one by one. What repair makes of a sketch is computed with
the ranking sorted by insertion (`Repairer.repair_eq_insertionSort`).
-/

namespace HoldMargin

open Relation

/-! ## Routes that lead to later nodes -/

namespace Device

variable {d : Device} {es : EdgeSet} {roots : NodeSet} {n u v : NodeId}

/-- **Edges that lead to later nodes**, and do not arrive twice at a node. -/
structure Descends (d : Device) (es : EdgeSet) : Prop where
  later : ∀ i ∈ es.toList, ∀ e ∈ d.edge? i, e.src.index < e.dst.index
  once : (d.entered es.toList).Nodup

instance : Decidable (d.Descends es) :=
  decidable_of_iff
    ((∀ i ∈ es.toList, ∀ e ∈ d.edge? i, e.src.index < e.dst.index) ∧ (d.entered es.toList).Nodup)
    ⟨fun h => ⟨h.1, h.2⟩, fun h => ⟨h.later, h.once⟩⟩

/-- Edges each of which starts at a root or where one of them arrives. -/
def Rooted (d : Device) (es : EdgeSet) (roots : NodeSet) : Prop :=
  ∀ i ∈ es.toList, ∀ e ∈ d.edge? i, e.src ∈ roots ∨ e.src ∈ d.entered es.toList

instance : Decidable (d.Rooted es roots) :=
  inferInstanceAs
    (Decidable (∀ i ∈ es.toList, ∀ e ∈ d.edge? i, e.src ∈ roots ∨ e.src ∈ d.entered es.toList))

/-- Edges that arrive at no node twice are told apart by where they arrive. -/
theorem eq_of_nodup_entered {is : List EdgeId} (h : (d.entered is).Nodup) {i j : EdgeId}
    {e f : Edge} (hi : i ∈ is) (hj : j ∈ is) (he : d.edge? i = some e) (hf : d.edge? j = some f)
    (heq : e.dst = f.dst) : i = j := by
  induction is with
  | nil => cases hi
  | cons k ks ih =>
    have htail : (d.entered ks).Nodup := by
      cases hk : d.edge? k with
      | none => simpa [entered, hk] using h
      | some g =>
        rw [entered_cons hk] at h
        exact h.tail
    rcases List.mem_cons.mp hi with rfl | hik <;> rcases List.mem_cons.mp hj with rfl | hjk
    · rfl
    · rw [entered_cons he] at h
      exact absurd (mem_entered.mpr ⟨j, hjk, f, hf, heq.symm⟩) (List.nodup_cons.mp h).1
    · rw [entered_cons hf] at h
      exact absurd (mem_entered.mpr ⟨i, hik, e, he, heq⟩) (List.nodup_cons.mp h).1
    · exact ih htail hik hjk

namespace Descends

theorem lt_of_leads (h : d.Descends es) (hl : d.Leads es u v) : u.index < v.index := by
  obtain ⟨i, hi, e, he, rfl, rfl⟩ := hl
  exact h.later i hi e he

/-- **Edges that lead to later nodes are a forest.** -/
theorem isForest (h : d.Descends es) : d.IsForest es where
  entered_once _ hi _ hj _ _ he hf heq := eq_of_nodup_entered h.once hi hj he hf heq
  acyclic n hn := by
    have hlt : ∀ m, TransGen (d.Leads es) n m → n.index < m.index := by
      intro m hm
      induction hm with
      | single hl => exact h.lt_of_leads hl
      | tail _ hl ih => exact Nat.lt_trans ih (h.lt_of_leads hl)
    exact Nat.lt_irrefl _ (hlt n hn)

/-- **Edges that lead to later nodes have no loose ends** if all of them are
rooted. -/
theorem attached (h : d.Descends es) (hrooted : d.Rooted es roots) : d.Attached es roots := by
  have hleads : ∀ k u v, v.index < k → d.Leads es u v → d.Supplies es roots v := by
    intro k
    induction k with
    | zero => exact fun u v hv => absurd hv (Nat.not_lt_zero _)
    | succ k ih =>
      intro u v hv hl
      have hlt := h.lt_of_leads hl
      have hu : d.Supplies es roots u := by
        obtain ⟨i, hi, e, he, rfl, rfl⟩ := hl
        rcases hrooted i hi e he with hroot | hentered
        · exact supplies_of_mem hroot
        · obtain ⟨j, hj, f, hf, hdst⟩ := mem_entered.mp hentered
          exact ih f.src e.src (by omega) ⟨j, hj, f, hf, rfl, hdst⟩
      obtain ⟨root, hroot, hto⟩ := hu
      exact ⟨root, hroot, hto.tail hl⟩
  rintro n ⟨m, hl | hl⟩
  · obtain ⟨i, hi, e, he, rfl, rfl⟩ := hl
    rcases hrooted i hi e he with hroot | hentered
    · exact supplies_of_mem hroot
    · obtain ⟨j, hj, f, hf, hdst⟩ := mem_entered.mp hentered
      exact hleads _ f.src e.src (Nat.lt_succ_self _) ⟨j, hj, f, hf, rfl, hdst⟩
  · exact hleads _ m n (Nat.lt_succ_self _) hl

end Descends

end Device

/-! ## Rankings by insertion -/

namespace Ranked

theorem notLonger_antisymm (a b : Ranked) (h : a.notLonger b) (h' : b.notLonger a) : a = b :=
  Std.LawfulEqOrd.eq_of_compare (Std.OrientedCmp.isLE_antisymm h h')

instance : Std.Total fun a b : Ranked => a.notLonger b where
  total a b := by simpa using notLonger_total a b

instance : IsTrans Ranked fun a b => a.notLonger b where
  trans := notLonger_trans

instance : Std.Antisymm fun a b : Ranked => a.notLonger b where
  antisymm := notLonger_antisymm

end Ranked

/-- The hold ranking may be sorted by insertion. -/
theorem Ranking.hold_eq_insertionSort (p : Placement) (axis : SkewAxis)
    (cs : List MeasuredConnection) :
    (hold p axis cs).toList =
      (cs.filterMap (p.atRisk? axis)).insertionSort fun a b => a.notLonger b := by
  rw [← List.mergeSort_eq_insertionSort]
  simp [hold]

/-- What is at risk may be looked up among the connections. -/
theorem Placement.exists_mem_hold {p : Placement} {s : Settings} {r : Routing} {c : Ranked}
    (h : (p.measure s r).outcome.map (fun dm =>
      dm.connections.any (p.atRisk? s.hold.skewAxis · = some c)) = .ok true) :
    ∃ dm, (p.measure s r).outcome = .ok dm ∧
      c ∈ (Ranking.hold p s.hold.skewAxis dm.connections).toList := by
  obtain ⟨dm, hdm, hany⟩ := map_eq_ok.mp h
  exact ⟨dm, hdm, Ranking.mem_hold.mpr (by simpa using hany)⟩

/-- A repair with its first queue sorted by insertion. -/
theorem Repairer.repair_eq_insertionSort {σ : Type} (rp : Repairer σ) (state : σ) (r : Routing) :
    rp.repair state r =
      let measured := rp.placement.measure rp.settings r
      match measured.outcome with
      | .error e =>
        { state, routing := r, picks := [], events := measured.events, outcome := .error e }
      | .ok m =>
        let atRisk := m.connections.filterMap (rp.placement.atRisk? rp.settings.hold.skewAxis)
        let queue := (atRisk.insertionSort fun a b => a.notLonger b).map fun c =>
          { candidate := c, generation := 0 }
        let last := rp.run { rp.start state r m measured.events with queue }
        last.1.finish last.2 := by
  cases hm : (rp.placement.measure rp.settings r).outcome with
  | error e => simp only [repair, hm]
  | ok m => simp only [repair, start, hm, Ranking.hold_eq_insertionSort]

/-! ## Sketches -/

/-- A node of a sketch: its kind, and its length, if that is not the usual
one. -/
structure SketchedNode where
  kind : NodeKind
  ownLength : Option UInt32 := none

/-- The device of a sketch: a switch box, and two logic tiles in two clock
regions with a site in each. The nodes of pins are outside the fabric. The
first node is that of the driver, on the first site; the sinks are on the
second one. -/
def Device.sketch (nodes : List SketchedNode) (edges : List (Nat × Nat))
    (sinks : List (String × Nat)) : Device :=
  Device.reindex {
    name := "sketch"
    tiles := #[
      { id := .ofIndex 0, name := "INT", col := 0, row := 0, type := .interconnect
        region := ⟨0, 0⟩ },
      { id := .ofIndex 1, name := "CLB0", col := 0, row := 0, type := .logic, region := ⟨0, 0⟩ },
      { id := .ofIndex 2, name := "CLB1", col := 0, row := 0, type := .logic, region := ⟨1, 0⟩ }]
    sites := #[
      { id := .ofIndex 0, name := "S0", tile := .ofIndex 1, carrySuccessor := none },
      { id := .ofIndex 1, name := "S1", tile := .ofIndex 2, carrySuccessor := none }]
    nodes := (nodes.mapIdx fun i n => {
      id := .ofIndex i, name := n.kind.name, kind := n.kind, ownLength := n.ownLength
      tile := .ofIndex (if n.kind = .sitePin then 1 else 0) }).toArray
    edges := (edges.mapIdx fun i e => {
      id := .ofIndex i, src := .ofIndex e.1, dst := .ofIndex e.2 }).toArray
    pinBindings := ({ pin := ⟨.ofIndex 0, "Q"⟩, node := .ofIndex 0 } ::
      sinks.map fun s => { pin := ⟨.ofIndex 1, s.1⟩, node := .ofIndex s.2 }).toArray }

/-- A sketched device with its only net. -/
def Placement.sketch (nodes : List SketchedNode) (edges : List (Nat × Nat))
    (sinks : List (String × Nat)) : Placement where
  device := .sketch nodes edges sinks
  netlist := {
    name := "sketch"
    pins := ({ id := .ofIndex 0, site := .ofIndex 0, name := "Q", role := .general } ::
      sinks.mapIdx fun i s => {
        id := .ofIndex (i + 1), site := .ofIndex 1, name := s.1, role := .general }).toArray
    nets := #[{
      id := .ofIndex 0, name := "n", kind := .wire, source := some (.ofIndex 0)
      alternateSource := none
      sinks := sinks.mapIdx fun i _ => .ofIndex (i + 1) }] }

/-- The routing in which the first net has committed some edges. -/
def Routing.sketch (edges : List Nat) : Routing :=
  ({} : Routing).set (.ofIndex 0) (IdSet.ofList (edges.map .ofIndex))

/-! ### Two sinks

The first sink has a short way and a long one, the second one a short way
only. -/

namespace Placement

/-- Two sinks, the first of which may be reached by a way round. -/
def twoSinks : Placement :=
  sketch [⟨.sitePin, none⟩, ⟨.output, none⟩, ⟨.single, none⟩, ⟨.sitePin, none⟩, ⟨.long, none⟩,
      ⟨.single, none⟩, ⟨.sitePin, none⟩]
    [(0, 1), (1, 2), (1, 4), (4, 3), (2, 3), (1, 5), (5, 6)] [("A", 3), ("B", 6)]

/-- Both sinks routed on their short ways. -/
def shortWays : Routing := .sketch [0, 1, 4, 5, 6]

/-- What repair makes of the short ways. -/
def repairedShortWays : RepairResult Unit := (twoSinks.mazeRepairer {} 1000).repair () shortWays

theorem ready_twoSinks : twoSinks.device.Ready := Device.ready_reindex (by decide +kernel)

theorem rootsOfNet_twoSinks :
    twoSinks.rootsOfNet (.ofIndex 0) = .ok (IdSet.ofList [.ofIndex 0, .ofIndex 1]) := by
  decide +kernel

theorem descends_shortWays : twoSinks.device.Descends (shortWays.of (.ofIndex 0)) := by
  decide +kernel

/-- What repair says of the short ways: the first sink is farther away now,
and the second one has no other way. -/
theorem outcome_repairedShortWays :
    repairedShortWays.outcome = .ok {
      repaired := 1
      abandoned := [{
        net := "n", driver := "S0/Q", sink := "S1/B", lengthBefore := 10, lengthAfter := some 10
        attempts := 1, reason := .nothingToAvoid, restored := false }]
      processed := 2
      attempts := 2
      limitReached := false } := by
  rw [repairedShortWays, Repairer.repair_eq_insertionSort]
  decide +kernel

end Placement

end HoldMargin
