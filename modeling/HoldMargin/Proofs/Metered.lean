import HoldMargin.Proofs.Fed
import HoldMargin.Proofs.Forested
/-!
# Which sinks have a length

A sink is routed if edges lead to the node of its pin from a driver. It has
a length if edges lead to where its length is read, from where a driver
enters the fabric. On a tree these are the same but for two cases
(`Placement.length_isSome_iff`). A route that comes to the node the sink
projects onto gives it a length, whether or not it goes on to the pin
(`Placement.ComesTo`); and a routed sink has a length only if the route
leaves the fabric for it within the hops that are looked at, at a node that
a driver's entry leads to (`Placement.ComesThrough`), not if the driver
leaves its pin another way. Both cases are met at `twoOutputs_disagree`.
-/

namespace HoldMargin

open Relation

/-- **Where edges leave the fabric** for a node: at the first fabric node up the
edges, within some hops. -/
inductive Device.LeavesAt (d : Device) (es : EdgeSet) : (hops : Nat) → (feed n : NodeId) → Prop
  | here {hops : Nat} {n : NodeId} : d.isFabric n = true → LeavesAt d es hops n n
  | above {hops : Nat} {feed m n : NodeId} : d.isFabric n = false → d.Leads es m n →
      LeavesAt d es hops feed m → LeavesAt d es (hops + 1) feed n

theorem Device.LeavesAt.reflTransGen {d : Device} {es : EdgeSet} {hops : Nat} {feed n : NodeId}
    (h : d.LeavesAt es hops feed n) : ReflTransGen (d.Leads es) feed n := by
  induction h with
  | here _ => exact .refl
  | above _ hl _ ih => exact ih.tail hl

/-- **In a forest the node a route comes through is where its edges leave the
fabric.** -/
theorem Route.feed?_eq_some_iff {r : Route} {d : Device} {es : EdgeSet} {hops : Nat}
    {feed n : NodeId} (hd : r.Draws d es) (hf : d.IsForest es) :
    r.feed? d n hops = some feed ↔ d.LeavesAt es hops feed n := by
  induction hops generalizing n with
  | zero =>
    rw [feed?]
    constructor
    · intro h
      split at h
      · rename_i hn
        cases h
        exact .here hn
      · cases h
    · rintro ⟨hn⟩
      exact if_pos hn
  | succ hops ih =>
    rw [feed?]
    constructor
    · intro h
      split at h
      · rename_i hn
        cases h
        exact .here hn
      · rename_i hn
        obtain ⟨a, ha, hfeed⟩ := Option.bind_eq_some_iff.mp h
        obtain ⟨hmem, rfl⟩ := arrival?_eq_some ha
        exact .above (by simpa using hn) (hd.leads_iff.mp ⟨a, hmem, rfl, rfl⟩) (ih.mp hfeed)
    · intro h
      cases h with
      | here hn => exact if_pos hn
      | above hn hl h =>
        obtain ⟨a, ha, rfl, rfl⟩ := hd.leads_iff.mpr hl
        rw [if_neg (by simp [hn]), (hd.arrival?_eq_some_iff hf).mpr ⟨ha, rfl⟩, Option.bind_some]
        exact ih.mpr h

namespace Placement

variable {p : Placement} {w : Weighting} {r : Routing} {id : NetId} {cs : List Connection}
  {m : MeasuredNet} {roots : NodeSet} {sink : PinId} {mc : MeasuredConnection}

/-- The route comes to the node that a sink projects onto, from where a driver
enters the fabric. -/
def ComesTo (p : Placement) (r : Routing) (id : NetId) (cs : List Connection) (sink : PinId) :
    Prop :=
  ∃ node projected, p.pinNode sink = .ok node ∧ p.device.project? .uphill node = some projected ∧
    p.device.Supplies (r.of id) (entryNodes cs) projected

/-- The route leaves the fabric for a sink, within the hops that are looked at,
at a node that it comes to from where a driver enters the fabric. -/
def ComesThrough (p : Placement) (r : Routing) (id : NetId) (cs : List Connection)
    (sink : PinId) : Prop :=
  ∃ node feed, p.pinNode sink = .ok node ∧
    p.device.LeavesAt (r.of id) projectionReach feed node ∧
    p.device.Supplies (r.of id) (entryNodes cs) feed

/-- **A sink that counts as reached**: it is routed and the route comes through to
it, or the route comes to where it projects. -/
def CountsAsReached (p : Placement) (r : Routing) (id : NetId) (cs : List Connection)
    (sink : PinId) : Prop :=
  p.isRouted r id sink = .ok true ∧ p.ComesThrough r id cs sink ∨ p.ComesTo r id cs sink

/-- **A sink that the route comes through to is routed.** -/
theorem ComesThrough.isRouted {route : Route} (h : p.ComesThrough r id cs sink)
    (hcs : (p.connections id).outcome = .ok cs) (hroute : p.routeOfNet r id = .ok route)
    (hroots : p.rootsOfNet id = .ok roots) : p.isRouted r id sink = .ok true := by
  obtain ⟨node, feed, hnode, hleaves, root, hroot, hto⟩ := h
  exact isRouted_eq_ok_true.mpr ⟨node, route, roots, hnode, hroute, hroots, root,
    mem_roots_of_entry hcs hroots hroot, hto.trans hleaves.reflTransGen⟩

/-- A node has a length exactly if edges lead there from where a driver enters
the fabric. -/
theorem exists_get?_lengths {route : Route} {name : String} {ls : Lengths} {n : NodeId}
    (hd : route.Draws p.device (r.of id)) (hf : p.device.IsForest (r.of id))
    (hls : route.lengthsFrom w p.device name (entryNodes cs).toList = .ok ls) :
    (∃ k, ls.get? n = some k) ↔ p.device.Supplies (r.of id) (entryNodes cs) n := by
  constructor
  · rintro ⟨k, hk⟩
    exact ((Route.get?_lengthsFrom hd hf hls).mp hk).exists_root
  · exact fun h => Route.exists_length hd hls h

/-- **A length is read** where the route comes through, or else where the sink
projects onto. -/
theorem exists_get?_sinkEntry {route : Route} {name : String} {ls : Lengths}
    {projected node : NodeId}
    (hd : route.Draws p.device (r.of id)) (hf : p.device.IsForest (r.of id))
    (hls : route.lengthsFrom w p.device name (entryNodes cs).toList = .ok ls) :
    (∃ k, ls.get? (p.sinkEntry route ls projected node) = some k) ↔
      (∃ feed, p.device.LeavesAt (r.of id) projectionReach feed node ∧
        p.device.Supplies (r.of id) (entryNodes cs) feed) ∨
      p.device.Supplies (r.of id) (entryNodes cs) projected := by
  simp only [get?_sinkEntry, Route.feed?_eq_some_iff hd hf,
    ← exists_get?_lengths hd hf hls]
  constructor
  · rintro ⟨k, ⟨feed, hleaves, hk⟩ | ⟨-, hk⟩⟩
    · exact .inl ⟨feed, hleaves, k, hk⟩
    · exact .inr ⟨k, hk⟩
  · rintro (⟨feed, hleaves, k, hk⟩ | ⟨k, hk⟩)
    · exact ⟨k, .inl ⟨feed, hleaves, hk⟩⟩
    · by_cases hfeed : ∃ feed, p.device.LeavesAt (r.of id) projectionReach feed node ∧
          ∃ l, ls.get? feed = some l
      · obtain ⟨feed, hleaves, l, hl⟩ := hfeed
        exact ⟨l, .inl ⟨feed, hleaves, hl⟩⟩
      · refine ⟨k, .inr ⟨fun feed hleaves => ?_, hk⟩⟩
        rw [Option.eq_none_iff_forall_ne_some]
        exact fun l hl => hfeed ⟨feed, hleaves, l, hl⟩

/-- **Which connections have a length**, of those that run through the fabric. -/
theorem length_isSome_iff (hf : p.device.IsForest (r.of id))
    (hroots : p.rootsOfNet id = .ok roots) (h : (p.measureNet w r id).outcome = .ok m)
    (hcs : (p.connections id).outcome = .ok cs) (hmc : mc ∈ m.connections)
    (hdirect : mc.isDirect = false) :
    mc.length.isSome = true ↔ p.CountsAsReached r id cs mc.sink := by
  obtain ⟨cs', n, route, hcs', -, hroute, hls, -, hall⟩ := measureNet_eq_ok h
  rw [hcs, Except.ok.injEq] at hcs'
  subst hcs'
  have hd := draws_of_routeOfNet hroute
  obtain ⟨c, hc, hmeasures⟩ := exists_left_of_mem hall hmc
  rcases hmeasures.length with ⟨-, hends, -⟩ | ⟨ends, node, hends, hnode, -, hlength⟩
  · rw [Connection.isDirect, hends] at hdirect
    cases hdirect
  obtain ⟨n', -, -, hconn⟩ := connections_eq_ok hcs
  obtain ⟨⟨node', hnode', hprojects⟩, -⟩ := endsOf_eq_ok (hends ▸ (hconn c hc).ends)
  obtain rfl : node = node' := by simpa [hnode] using hnode'
  rw [hmeasures.sink, Option.isSome_iff_exists, hlength, exists_get?_sinkEntry hd hf hls]
  constructor
  · rintro (⟨feed, hleaves, hs⟩ | hs)
    · have hthrough : p.ComesThrough r id cs c.sink := ⟨node, feed, hnode, hleaves, hs⟩
      exact .inl ⟨hthrough.isRouted hcs hroute hroots, hthrough⟩
    · exact .inr ⟨node, ends.sink, hnode, hprojects, hs⟩
  · rintro (⟨-, node', feed, hnode', hleaves, hs⟩ | ⟨node', projected, hnode', hproj', hs⟩)
    · obtain rfl : node = node' := by simpa [hnode] using hnode'
      exact .inl ⟨feed, hleaves, hs⟩
    · obtain rfl : node = node' := by simpa [hnode] using hnode'
      obtain rfl : ends.sink = projected := by simpa [hprojects] using hproj'
      exact .inr hs

theorem unreached_of_measureNet (h : (p.measureNet w r id).outcome = .ok m) :
    m.unreached = p.unreachedSinks m.name m.connections := by
  unfold measureNet at h
  simp only [Pass.outcome_bind, Pass.outcome_ofExcept, Pass.outcome_mapM] at h
  obtain ⟨cs, -, h⟩ := bind_eq_ok.mp h
  obtain ⟨n, -, h⟩ := bind_eq_ok.mp h
  obtain ⟨route, -, h⟩ := bind_eq_ok.mp h
  obtain ⟨ls, -, h⟩ := bind_eq_ok.mp h
  obtain ⟨usage, -, h⟩ := bind_eq_ok.mp h
  obtain ⟨measured, -, h⟩ := bind_eq_ok.mp h
  cases h
  rfl

/-- **What measuring a net finds reached**, on a tree: a connection through the
fabric has a length exactly if its sink counts as reached, and the sinks that
do not are listed, in the order of their connections. -/
theorem measureNet_finds_unreached (hf : p.device.IsForest (r.of id))
    (hroots : p.rootsOfNet id = .ok roots) (h : (p.measureNet w r id).outcome = .ok m) :
    ∃ cs, (p.connections id).outcome = .ok cs ∧
      (∀ mc ∈ m.connections, mc.isDirect = false →
        (mc.length.isSome = true ↔ p.CountsAsReached r id cs mc.sink)) ∧
      ∃ lost : List MeasuredConnection, lost.Sublist m.connections ∧
        (∀ mc, mc ∈ lost ↔
          mc ∈ m.connections ∧ mc.isDirect = false ∧ ¬ p.CountsAsReached r id cs mc.sink) ∧
        m.unreached = lost.map fun mc => { net := m.name, sink := p.label mc.sink } := by
  obtain ⟨cs, n, route, hcs, -⟩ := measureNet_eq_ok h
  have hiff : ∀ mc ∈ m.connections, mc.isDirect = false →
      (mc.length.isSome = true ↔ p.CountsAsReached r id cs mc.sink) :=
    fun mc hmc hdirect => length_isSome_iff hf hroots h hcs hmc hdirect
  refine ⟨cs, hcs, hiff, m.connections.filter fun mc => !mc.isDirect && mc.length.isNone,
    List.filter_sublist, fun mc => ?_, unreached_of_measureNet h⟩
  rw [List.mem_filter]
  refine and_congr_right fun hmc => ?_
  rw [Bool.and_eq_true, Bool.not_eq_true']
  refine and_congr_right fun hdirect => ?_
  rw [← hiff mc hmc hdirect, Option.isNone_iff_eq_none, Option.not_isSome_iff_eq_none]

/-! ## Two outputs of one driver -/

/-- The driver leaves its pin by two outputs: by the first one for two sinks at
one node, and by the second one for a sink of its own. -/
def twoOutputs : Placement :=
  sketch [⟨.sitePin, none⟩, ⟨.output, none⟩, ⟨.single, none⟩, ⟨.sitePin, none⟩, ⟨.sitePin, none⟩,
      ⟨.output, none⟩, ⟨.single, none⟩, ⟨.sitePin, none⟩]
    [(0, 1), (1, 2), (2, 3), (2, 4), (0, 5), (5, 6), (6, 7)] [("A", 3), ("B", 4), ("X", 7)]

/-- All of it but the last hop to the second sink. -/
def lastHopMissing : Routing := .sketch [0, 1, 2, 4, 5, 6]

theorem descends_lastHopMissing :
    twoOutputs.device.Descends (lastHopMissing.of (.ofIndex 0)) := by
  decide +kernel

theorem rootsOfNet_twoOutputs :
    twoOutputs.rootsOfNet (.ofIndex 0) = .ok (IdSet.ofList [.ofIndex 0, .ofIndex 1]) := by
  decide +kernel

theorem measureNet_twoOutputs :
    (twoOutputs.measureNet ({} : Settings).weighting lastHopMissing (.ofIndex 0)).outcome.map
        (fun m => (m.connections.map fun mc => (mc.sink, mc.isDirect, mc.length), m.unreached)) =
      .ok ([(.ofIndex 1, false, some 10), (.ofIndex 2, false, some 10), (.ofIndex 3, false, none)],
        [⟨"n", "S1/X"⟩]) := by
  decide +kernel

theorem twoOutputs_finds_unreached :
    twoOutputs.device.IsForest (lastHopMissing.of (.ofIndex 0)) ∧
      twoOutputs.rootsOfNet (.ofIndex 0) = .ok (IdSet.ofList [.ofIndex 0, .ofIndex 1]) ∧
      ∃ m cs, (twoOutputs.measureNet ({} : Settings).weighting lastHopMissing
          (.ofIndex 0)).outcome = .ok m ∧
        (twoOutputs.connections (.ofIndex 0)).outcome = .ok cs ∧
        twoOutputs.CountsAsReached lastHopMissing (.ofIndex 0) cs (.ofIndex 1) ∧
        twoOutputs.CountsAsReached lastHopMissing (.ofIndex 0) cs (.ofIndex 2) ∧
        ¬ twoOutputs.CountsAsReached lastHopMissing (.ofIndex 0) cs (.ofIndex 3) := by
  have hf := descends_lastHopMissing.isForest
  have hlisted := measureNet_twoOutputs
  cases hm : (twoOutputs.measureNet ({} : Settings).weighting lastHopMissing
      (.ofIndex 0)).outcome with
  | error e =>
    rw [hm] at hlisted
    cases hlisted
  | ok m =>
    rw [hm, Except.map, Except.ok.injEq, Prod.mk.injEq] at hlisted
    obtain ⟨cs, hcs, hiff, -⟩ := measureNet_finds_unreached hf rootsOfNet_twoOutputs hm
    have hcounts : ∀ sink length, (sink, false, length) ∈
        m.connections.map (fun mc => (mc.sink, mc.isDirect, mc.length)) →
        (length.isSome = true ↔
          twoOutputs.CountsAsReached lastHopMissing (.ofIndex 0) cs sink) := by
      intro sink length hmem
      obtain ⟨mc, hmc, heq⟩ := List.mem_map.mp hmem
      simp only [Prod.mk.injEq] at heq
      obtain ⟨rfl, hdirect, rfl⟩ := heq
      exact hiff mc hmc hdirect
    rw [hlisted.1] at hcounts
    refine ⟨hf, rootsOfNet_twoOutputs, m, cs, rfl, hcs, ?_, ?_, ?_⟩
    · exact (hcounts (.ofIndex 1) (some 10) (by simp)).mp rfl
    · exact (hcounts (.ofIndex 2) (some 10) (by simp)).mp rfl
    · exact fun h => nomatch (hcounts (.ofIndex 3) none (by simp)).mpr h

/-- **Lengths and routes disagree** on a tree, both ways: the second sink has a
length and is not routed, and the third one is routed, has no length and is
listed. -/
theorem twoOutputs_disagree :
    twoOutputs.device.Ready ∧ twoOutputs.device.IsForest (lastHopMissing.of (.ofIndex 0)) ∧
      twoOutputs.rootsOfNet (.ofIndex 0) = .ok (IdSet.ofList [.ofIndex 0, .ofIndex 1]) ∧
      twoOutputs.device.Attached (lastHopMissing.of (.ofIndex 0))
        (IdSet.ofList [.ofIndex 0, .ofIndex 1]) ∧
      (twoOutputs.measureNet ({} : Settings).weighting lastHopMissing (.ofIndex 0)).outcome.map
          (fun m => (m.connections.map fun mc => (mc.sink, mc.isDirect, mc.length), m.unreached)) =
        .ok ([(.ofIndex 1, false, some 10), (.ofIndex 2, false, some 10),
          (.ofIndex 3, false, none)], [⟨"n", "S1/X"⟩]) ∧
      twoOutputs.isRouted lastHopMissing (.ofIndex 0) (.ofIndex 1) = .ok true ∧
      twoOutputs.isRouted lastHopMissing (.ofIndex 0) (.ofIndex 2) = .ok false ∧
      twoOutputs.isRouted lastHopMissing (.ofIndex 0) (.ofIndex 3) = .ok true := by
  refine ⟨Device.ready_reindex (by decide +kernel), descends_lastHopMissing.isForest,
    rootsOfNet_twoOutputs, descends_lastHopMissing.attached (by decide +kernel),
    measureNet_twoOutputs, ?_⟩
  decide +kernel

end Placement

end HoldMargin
