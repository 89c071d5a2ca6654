import HoldMargin.Proofs.Lengths
import HoldMargin.Proofs.Sketched
import Mathlib.Algebra.Order.Ring.Nat
/-!
# Lengths do not depend on the order of the edges

The order in which edges are supplied decides in what order a walk meets
the nodes, and nothing else, if a node is entered from one side: its length
is the sum of the tolls on the way up to the nearest root, and there is one
such way (`Device.WayUp.unique`). Holding a length at the greatest one at
every step is the same as holding the sum there once
(`Device.lengthAt_iff`). What the order does decide, if there is something
that the device does not know, is which of these things a failure names
(`Placement.lengthsAlong_perm`, `Placement.twoSinks_two_unknown`).
-/

namespace HoldMargin

open Relation

namespace Device

variable {d : Device} {w : Weighting} {es : EdgeSet} {roots : List NodeId} {n : NodeId}
  {ns ns' : List NodeId} {k : Nat}

/-- **The way up from a node** to the first root that it comes to: the nodes on
it, without the root. -/
inductive WayUp (d : Device) (es : EdgeSet) (roots : List NodeId) : NodeId → List NodeId → Prop
  | root {n : NodeId} : n ∈ roots → WayUp d es roots n []
  | step {m n : NodeId} {ns : List NodeId} : n ∉ roots → d.Leads es m n → WayUp d es roots m ns →
      WayUp d es roots n (n :: ns)

/-- **There is one way up** from a node, if nodes are entered from one side. -/
theorem WayUp.unique (honce : d.EntersOnce es roots) (h : d.WayUp es roots n ns)
    (h' : d.WayUp es roots n ns') : ns = ns' := by
  induction h generalizing ns' with
  | root hn =>
    cases h' with
    | root _ => rfl
    | step hno _ _ => exact absurd hn hno
  | step hno hl _ ih =>
    cases h' with
    | root hn => exact absurd hn hno
    | step _ hl' hm' =>
      have hmm := honce _ _ _ hno hl hl'
      subst hmm
      rw [ih hm']

/-- **The length at a node is the sum of the tolls on a way up**, held at the
greatest length. -/
theorem lengthAt_iff :
    d.LengthAt w es roots n k ↔
      ∃ ns tolls, d.WayUp es roots n ns ∧ ns.mapM (w.toll d) = some tolls ∧
        k = clamp tolls.sum := by
  constructor
  · intro h
    induction h with
    | root hn => exact ⟨[], [], .root hn, rfl, rfl⟩
    | @step m n length toll _ hl hno ht ih =>
      obtain ⟨ns, tolls, hup, htolls, rfl⟩ := ih
      refine ⟨n :: ns, toll :: tolls, .step hno hl hup, by simp [ht, htolls], ?_⟩
      rw [clamp_clamp_add, List.sum_cons, Nat.add_comm]
  · rintro ⟨ns, tolls, hup, htolls, rfl⟩
    induction hup generalizing tolls with
    | root hn =>
      obtain rfl : tolls = [] := by simpa using htolls.symm
      exact .root hn
    | step hno hl _ ih =>
      obtain ⟨toll, ht, rest, hrest, rfl⟩ : ∃ toll, w.toll d _ = some toll ∧
          ∃ rest, List.mapM (w.toll d) _ = some rest ∧ toll :: rest = tolls := by
        simpa [List.mapM_cons, Option.bind_eq_some_iff] using htolls
      have hstep := LengthAt.step (ih rest hrest) hl hno ht
      rwa [clamp_clamp_add, Nat.add_comm, ← List.sum_cons] at hstep

end Device

/-! ## When a walk fails -/

namespace Route

variable {d : Device} {w : Weighting} {es : EdgeSet} {r : Route} {roots seen : List NodeId}
  {vs : List Visit} {ls : Lengths} {net : String} {n : NodeId}

/-- A visit fails if the device does not know the node. -/
theorem visit_eq_error {v : Visit} {e : PassError} :
    ls.visit w d net v = .error e ↔ d.node? v.node = none ∧ e = .unknownNode net v.node := by
  unfold Lengths.visit Weighting.toll Device.lengthOf?
  cases d.node? v.node with
  | none =>
    constructor
    · intro h
      cases h
      exact ⟨rfl, rfl⟩
    · rintro ⟨-, rfl⟩
      rfl
  | some node => exact iff_of_false (fun h => nomatch h) fun h => nomatch h.1

theorem exists_visits_iff :
    (∃ ls', vs.foldlM (Lengths.visit · w d net) ls = .ok ls') ↔
      ∀ v ∈ vs, ∃ node, d.node? v.node = some node := by
  refine exists_foldlM_iff fun v _ ls => ?_
  rw [← Option.ne_none_iff_exists']
  cases hv : ls.visit w d net v with
  | error e => exact iff_of_false (fun ⟨_, hno⟩ => nomatch hno) fun h => h (visit_eq_error.mp hv).1
  | ok next =>
    refine iff_of_true ⟨next, rfl⟩ fun hno => ?_
    rw [visit_eq_error.mpr ⟨hno, rfl⟩] at hv
    cases hv

/-- Visits fail at one of them. -/
theorem exists_of_visits_eq_error {e : PassError}
    (h : vs.foldlM (Lengths.visit · w d net) ls = .error e) :
    ∃ v ∈ vs, d.node? v.node = none ∧ e = .unknownNode net v.node := by
  induction vs generalizing ls with
  | nil => cases h
  | cons v vs ih =>
    rw [List.foldlM_cons] at h
    rcases bind_eq_error.mp h with h | ⟨next, -, h⟩
    · exact ⟨v, List.mem_cons_self, visit_eq_error.mp h⟩
    · obtain ⟨v', hv', hfail⟩ := ih h
      exact ⟨v', List.mem_cons_of_mem _ hv', hfail⟩

end Route

/-! ## Edges in some order -/

namespace Placement

variable {p : Placement} {w : Weighting} {name : String} {roots : List NodeId}
  {is js : List EdgeId} {es : EdgeSet}

/-- The lengths along the route that edges make up, taken in order. -/
def lengthsAlong (p : Placement) (w : Weighting) (name : String) (roots : List NodeId)
    (is : List EdgeId) : Except PassError Lengths := do
  let route ← p.routeOf name is
  route.lengthsFrom w p.device name roots

/-- **Edges that can be walked**: the device knows all of them, and all nodes
they lead to from the roots. A root that the device does not know does no
harm. -/
structure Walkable (p : Placement) (es : EdgeSet) (roots : List NodeId) : Prop where
  edge : ∀ i ∈ es, ∃ e, p.device.edge? i = some e
  node : ∀ n, n ∉ roots → (∃ root ∈ roots, ReflTransGen (p.device.Leads es) root n) →
    ∃ node, p.device.node? n = some node

/-- **What is wrong with edges** that cannot be walked: one that the device does
not know, or else a node that it does not know. -/
inductive Fault (p : Placement) (name : String) (es : EdgeSet) (roots : List NodeId) :
    PassError → Prop
  | edge {i : EdgeId} : i ∈ es → p.device.edge? i = none →
      Fault p name es roots (.unknownEdge name i)
  | node {n : NodeId} : (∀ i ∈ es, ∃ e, p.device.edge? i = some e) → n ∉ roots →
      (∃ root ∈ roots, ReflTransGen (p.device.Leads es) root n) → p.device.node? n = none →
      Fault p name es roots (.unknownNode name n)

/-- **There are lengths exactly if the edges can be walked.** -/
theorem exists_lengthsAlong_iff :
    (∃ ls, p.lengthsAlong w name roots is = .ok ls) ↔ p.Walkable (IdSet.ofList is) roots := by
  constructor
  · rintro ⟨ls, h⟩
    obtain ⟨route, hroute, h⟩ := bind_eq_ok.mp h
    have hdraws := draws_of_routeOf hroute
    refine ⟨exists_routeOf_iff.mp ⟨route, hroute⟩, fun n hno hto => ?_⟩
    rw [← hdraws.leads_eq] at hto
    obtain ⟨v, hv, rfl⟩ := Route.exists_visit_iff.mpr ⟨hno, hto⟩
    exact Route.exists_visits_iff.mp ⟨ls, h⟩ v hv
  · rintro ⟨hedge, hnode⟩
    obtain ⟨route, hroute⟩ := exists_routeOf_iff.mpr hedge
    have hdraws := draws_of_routeOf hroute
    have hvisits : ∀ v ∈ route.walk roots, ∃ node, p.device.node? v.node = some node := by
      intro v hv
      obtain ⟨hno, hto⟩ := Route.exists_visit_iff.mp ⟨v, hv, rfl⟩
      rw [hdraws.leads_eq] at hto
      exact hnode v.node hno hto
    obtain ⟨ls, hls⟩ := Route.exists_visits_iff.mpr hvisits
    exact ⟨ls, bind_eq_ok.mpr ⟨route, hroute, hls⟩⟩

/-- A failure names something that is wrong. -/
theorem fault_of_lengthsAlong {e : PassError} (h : p.lengthsAlong w name roots is = .error e) :
    p.Fault name (IdSet.ofList is) roots e := by
  rcases bind_eq_error.mp h with h | ⟨route, hroute, h⟩
  · rcases bind_eq_error.mp h with h | ⟨hops, -, hno⟩
    · obtain ⟨i, hi, he⟩ := exists_of_mapM_eq_error h
      unfold hopOf at he
      split at he
      · cases he
      · cases he
        exact .edge (IdSet.mem_ofList.mpr hi) ‹_›
    · cases hno
  · obtain ⟨v, hv, hnode, rfl⟩ := Route.exists_of_visits_eq_error h
    have hdraws := draws_of_routeOf hroute
    obtain ⟨hno, hto⟩ := Route.exists_visit_iff.mp ⟨v, hv, rfl⟩
    rw [hdraws.leads_eq] at hto
    exact .node (exists_routeOf_iff.mp ⟨route, hroute⟩) hno hto hnode

/-- **The lengths along edges** that enter nodes from one side only. -/
theorem get?_lengthsAlong (honce : p.device.EntersOnce (IdSet.ofList is) roots) {ls : Lengths}
    (h : p.lengthsAlong w name roots is = .ok ls) {n : NodeId} {k : Nat} :
    ls.get? n = some k ↔ p.device.LengthAt w (IdSet.ofList is) roots n k := by
  obtain ⟨route, hroute, h⟩ := bind_eq_ok.mp h
  exact Route.get?_lengthsFrom_of_entersOnce (draws_of_routeOf hroute) honce h

/-- The nodes that have lengths are those that edges lead to from the roots. -/
theorem exists_get?_lengthsAlong (honce : p.device.EntersOnce (IdSet.ofList is) roots)
    {ls : Lengths} (h : p.lengthsAlong w name roots is = .ok ls) {n : NodeId} :
    (∃ k, ls.get? n = some k) ↔
      ∃ root ∈ roots, ReflTransGen (p.device.Leads (IdSet.ofList is)) root n := by
  constructor
  · rintro ⟨k, hk⟩
    exact ((get?_lengthsAlong honce h).mp hk).exists_root
  · intro hto
    obtain ⟨route, hroute, h⟩ := bind_eq_ok.mp h
    exact Route.exists_length (draws_of_routeOf hroute) h hto

/-- **The order of the edges makes no difference to the lengths.** If the edges
enter a node that is no root from one side only, then in another order they
give the same lengths. The nodes that have one are those that are reached from
the roots, and it is the sum of the tolls on the only way up from the node to
the nearest root, held at the greatest length. Or there are none in either
order, and both failures name something that is wrong. -/
theorem lengthsAlong_perm (w : Weighting) (name : String) (hperm : is.Perm js)
    (honce : p.device.EntersOnce (IdSet.ofList is) roots) :
    ((∃ ls, p.lengthsAlong w name roots is = .ok ls ∧ p.lengthsAlong w name roots js = .ok ls) ∨
      ∃ e e', p.lengthsAlong w name roots is = .error e ∧
        p.lengthsAlong w name roots js = .error e' ∧
        p.Fault name (IdSet.ofList is) roots e ∧ p.Fault name (IdSet.ofList is) roots e') ∧
    ∀ ls, p.lengthsAlong w name roots is = .ok ls → ∀ n,
      ((∃ k, ls.get? n = some k) ↔
        ∃ root ∈ roots, ReflTransGen (p.device.Leads (IdSet.ofList is)) root n) ∧
      (∀ k, ls.get? n = some k ↔
        ∃ ns tolls, p.device.WayUp (IdSet.ofList is) roots n ns ∧
          ns.mapM (w.toll p.device) = some tolls ∧ k = min tolls.sum maxLength) ∧
      ∀ ns ns', p.device.WayUp (IdSet.ofList is) roots n ns →
        p.device.WayUp (IdSet.ofList is) roots n ns' → ns = ns' := by
  have hsame : IdSet.ofList js = IdSet.ofList is := by
    ext i
    rw [IdSet.mem_ofList, IdSet.mem_ofList, hperm.mem_iff]
  refine ⟨?_, fun ls hls n =>
    ⟨exists_get?_lengthsAlong honce hls, fun k => ?_, fun ns ns' h h' => h.unique honce h'⟩⟩
  · cases his : p.lengthsAlong w name roots is with
    | ok ls =>
      have hwalk := exists_lengthsAlong_iff.mp ⟨ls, his⟩
      obtain ⟨ls', hjs⟩ := exists_lengthsAlong_iff.mpr (hsame ▸ hwalk)
      refine .inl ⟨ls, rfl, hjs.trans (congrArg Except.ok (IdMap.ext fun n => ?_))⟩
      ext k
      rw [get?_lengthsAlong honce his, get?_lengthsAlong (hsame ▸ honce) hjs, hsame]
    | error e =>
      cases hjs : p.lengthsAlong w name roots js with
      | ok ls =>
        have hwalk := exists_lengthsAlong_iff.mp ⟨ls, hjs⟩
        obtain ⟨ls', hno⟩ := exists_lengthsAlong_iff.mpr (hsame ▸ hwalk)
        rw [his] at hno
        cases hno
      | error e' =>
        exact .inr ⟨e, e', rfl, rfl, fault_of_lengthsAlong his, hsame ▸ fault_of_lengthsAlong hjs⟩
  · rw [get?_lengthsAlong honce hls, Device.lengthAt_iff]
    rfl

/-! ## Two orders of the short ways -/

/-- The length at the node of the first sink, which is behind both roots. -/
theorem get?_shortWays :
    (twoSinks.lengthsAlong {} "n" [.ofIndex 0, .ofIndex 1] ([0, 1, 4, 5, 6].map .ofIndex)).map
      (·.get? (.ofIndex 3)) = .ok (some 10) := by
  decide +kernel

theorem shortWays_reordered :
    ∃ ls, twoSinks.lengthsAlong {} "n" [.ofIndex 0, .ofIndex 1] ([0, 1, 4, 5, 6].map .ofIndex) =
        .ok ls ∧
      twoSinks.lengthsAlong {} "n" [.ofIndex 0, .ofIndex 1] ([6, 4, 1, 0, 5].map .ofIndex) =
        .ok ls ∧ ls.get? (.ofIndex 3) = some 10 := by
  have hperm : (([0, 1, 4, 5, 6] : List Nat).map TableId.ofIndex : List EdgeId).Perm
      ([6, 4, 1, 0, 5].map .ofIndex) := by decide
  have hdescends : twoSinks.device.Descends (IdSet.ofList ([0, 1, 4, 5, 6].map .ofIndex)) := by
    decide +kernel
  have hlength := get?_shortWays
  obtain ⟨⟨ls, h, h'⟩ | ⟨e, e', h, -⟩, -⟩ := lengthsAlong_perm (p := twoSinks) {} "n" hperm
    (hdescends.isForest.entersOnce [.ofIndex 0, .ofIndex 1])
  · rw [h, Except.map, Except.ok.injEq] at hlength
    exact ⟨ls, h, h', hlength⟩
  · rw [h] at hlength
    cases hlength

/-- **Which edge a failure names depends on the order**, if there are two that
the device does not know. -/
theorem twoSinks_two_unknown :
    (([7, 8] : List Nat).map TableId.ofIndex : List EdgeId).Perm ([8, 7].map .ofIndex) ∧
      twoSinks.device.EntersOnce (IdSet.ofList ([7, 8].map .ofIndex)) [.ofIndex 0] ∧
      twoSinks.lengthsAlong {} "n" [.ofIndex 0] ([7, 8].map .ofIndex) ≠
        twoSinks.lengthsAlong {} "n" [.ofIndex 0] ([8, 7].map .ofIndex) := by
  have hdescends : twoSinks.device.Descends (IdSet.ofList ([7, 8].map .ofIndex)) := by
    decide +kernel
  exact ⟨by decide, hdescends.isForest.entersOnce _, by decide +kernel⟩

end Placement

end HoldMargin
