import HoldMargin.Proofs.Hops
import HoldMargin.Proofs.Reordered
/-!
# Lengths on routes of any shape

A walk meets the nodes of a route layer by layer: the roots, then what is one
hop from a root, then what is two hops from one (`Layer`). So every visit goes
on from a node that is one hop nearer to the roots (`Route.depth_of_mem_walk`).
A node is visited once, so the length it is given then is its length in the end
(`Route.get?_visits`). None of this asks for a forest: where a route branches,
joins again or goes round in circles, the length at a node is taken over from a
node before it on a way of fewest hops (`Route.lengthsFrom_layered`).
-/

namespace HoldMargin.Route

open Relation

variable {r : Route} {d : Device} {w : Weighting} {net : String}
  {roots seen frontier : List NodeId} {vs : List Visit} {ls ls' : Lengths} {m n : NodeId}
  {j k : Nat}

/-! ## The layers of a walk -/

/-- **The depth of a node**: the least number of hops that it takes from a root. -/
abbrev Depth (r : Route) (roots : List NodeId) : NodeId → Nat → Prop :=
  HoldMargin.Depth r.Leads roots

/-- A round visits what has not been seen of what it comes to. -/
theorem mem_map_firstVisits :
    n ∈ (firstVisits seen vs).map Visit.node ↔ n ∉ seen ∧ n ∈ vs.map Visit.node := by
  simp only [List.mem_map]
  constructor
  · rintro ⟨v, hv, rfl⟩
    exact ⟨not_mem_of_mem_firstVisits hv, v, firstVisits_subset hv, rfl⟩
  · rintro ⟨hno, v, hv, rfl⟩
    exact (mem_or_exists_firstVisits hv).resolve_left hno

theorem mem_map_departures :
    n ∈ (r.departures frontier).map Visit.node ↔ ∃ m ∈ frontier, r.Leads m n := by
  simp only [List.mem_map, mem_departures]
  constructor
  · rintro ⟨v, ⟨hsrc, hl⟩, rfl⟩
    exact ⟨v.src, hsrc, hl⟩
  · rintro ⟨m, hm, hl⟩
    exact ⟨⟨n, m⟩, ⟨hm, hl⟩, rfl⟩

/-- Each visit of a walk leads one layer down. -/
theorem depth_of_mem_walkFrom (h : Layer r.Leads roots seen frontier k) {rounds : Nat}
    {v : Visit} (hv : v ∈ r.walkFrom seen frontier rounds) :
    ∃ j, r.Depth roots v.src j ∧ r.Depth roots v.node (j + 1) := by
  induction rounds generalizing seen frontier k with
  | zero => cases hv
  | succ rounds ih =>
    have hnext := h.next fun _ => mem_map_firstVisits.trans (and_congr_right fun _ =>
      mem_map_departures)
    rw [walkFrom] at hv
    rcases List.mem_append.mp hv with hv | hv
    · have hsrc := (mem_departures.mp (firstVisits_subset hv)).1
      exact ⟨k, (h.frontier _).mp hsrc,
        (hnext.frontier _).mp (List.mem_map_of_mem (f := Visit.node) hv)⟩
    · exact ih hnext hv

/-- **A visit goes on from a node that is one hop nearer to the roots.** -/
theorem depth_of_mem_walk {v : Visit} (hv : v ∈ r.walk roots) :
    ∃ j, r.Depth roots v.src j ∧ r.Depth roots v.node (j + 1) :=
  depth_of_mem_walkFrom (layer_start fun _ => List.mem_eraseDups) hv

/-! ## The lengths given on a walk -/

/-- The length that a visit gives. -/
theorem visit_eq_ok {v : Visit} (h : ls.visit w d net v = .ok ls') :
    ∃ toll, w.toll d v.node = some toll ∧
      ls' = ls.insert v.node (clamp ((ls.get? v.src).getD 0 + toll)) := by
  unfold Lengths.visit at h
  split at h
  · rename_i toll ht
    cases h
    exact ⟨toll, ht, rfl⟩
  · cases h

/-- Visits leave the length of a node alone that is not visited. -/
theorem get?_visits_of_not_visited (h : vs.foldlM (Lengths.visit · w d net) ls = .ok ls')
    (hn : ∀ v ∈ vs, v.node ≠ n) : ls'.get? n = ls.get? n := by
  induction vs generalizing ls with
  | nil =>
    cases h
    rfl
  | cons v vs ih =>
    rw [List.foldlM_cons] at h
    obtain ⟨next, hnext, h⟩ := bind_eq_ok.mp h
    obtain ⟨toll, -, rfl⟩ := visit_eq_ok hnext
    rw [ih h fun u hu => hn u (List.mem_cons_of_mem _ hu), IdMap.get?_insert,
      if_neg (Ne.symm (hn v List.mem_cons_self))]

/-- **What is visited has the length of the node before it and its toll.** -/
theorem get?_visits (hvs : r.Explores seen vs)
    (h : vs.foldlM (Lengths.visit · w d net) ls = .ok ls') :
    ∀ v ∈ vs, ∃ toll, w.toll d v.node = some toll ∧
      ls'.get? v.node = some (clamp ((ls'.get? v.src).getD 0 + toll)) := by
  induction hvs generalizing ls with
  | nil => exact fun _ hv => nomatch hv
  | @cons seen v vs hsrc hnode hl hvs ih =>
    rw [List.foldlM_cons] at h
    obtain ⟨next, hnext, h⟩ := bind_eq_ok.mp h
    obtain ⟨toll, ht, rfl⟩ := visit_eq_ok hnext
    -- both ends of the first visit are seen by the later ones, so these leave them alone
    have hkept : ∀ n ∈ v.node :: seen, ls'.get? n =
        (ls.insert v.node (clamp ((ls.get? v.src).getD 0 + toll))).get? n := fun n hn =>
      get?_visits_of_not_visited h fun u hu heq => hvs.not_mem hu (heq.symm ▸ hn)
    intro u hu
    rcases List.mem_cons.mp hu with rfl | hu
    · have hne : u.src ≠ u.node := fun heq => hnode (heq.symm ▸ hsrc)
      refine ⟨toll, ht, ?_⟩
      rw [hkept _ List.mem_cons_self, hkept _ (List.mem_cons_of_mem _ hsrc), IdMap.get?_insert,
        IdMap.get?_insert, if_pos rfl, if_neg hne]
    · exact ih h u hu

/-- **The lengths along a route**, read off the walk. -/
structure Tells (r : Route) (d : Device) (w : Weighting) (roots : List NodeId) (ls : Lengths) :
    Prop where
  root : ∀ n ∈ roots, ls.get? n = some 0
  visit : ∀ v ∈ r.walk roots, ∃ toll, w.toll d v.node = some toll ∧
    ls.get? v.node = some (clamp ((ls.get? v.src).getD 0 + toll))
  other : ∀ n, n ∉ roots → (∀ v ∈ r.walk roots, v.node ≠ n) → ls.get? n = none

theorem tells_lengthsFrom (h : r.lengthsFrom w d net roots = .ok ls) : r.Tells d w roots ls where
  root n hn := by
    have hexplores := r.explores_walk roots
    rw [get?_visits_of_not_visited h fun v hv heq => hexplores.not_mem hv (heq.symm ▸ hn)]
    exact IdMap.get?_ofKeys.mpr ⟨hn, rfl⟩
  visit := get?_visits (r.explores_walk roots) h
  other n hno hv := by
    rw [get?_visits_of_not_visited h hv, Option.eq_none_iff_forall_ne_some]
    exact fun k hk => hno (IdMap.get?_ofKeys.mp hk).1

namespace Tells

/-- **The nodes that have a length** are those that the route reaches. -/
theorem exists_get?_iff (h : r.Tells d w roots ls) :
    (∃ k, ls.get? n = some k) ↔ ∃ root ∈ roots, ReflTransGen r.Leads root n := by
  rw [← met_iff]
  constructor
  · rintro ⟨k, hk⟩
    by_contra hno
    rw [not_or, not_exists] at hno
    rw [h.other n hno.1 fun v hv heq => hno.2 v ⟨hv, heq⟩] at hk
    cases hk
  · rintro (hn | ⟨v, hv, rfl⟩)
    · exact ⟨0, h.root n hn⟩
    · obtain ⟨toll, -, hk⟩ := h.visit v hv
      exact ⟨_, hk⟩

theorem le_maxLength (h : r.Tells d w roots ls) (hk : ls.get? n = some k) : k ≤ maxLength := by
  rcases met_iff.mpr (h.exists_get?_iff.mp ⟨k, hk⟩) with hn | ⟨v, hv, rfl⟩
  · rw [h.root n hn, Option.some.injEq] at hk
    omega
  · obtain ⟨toll, -, hvk⟩ := h.visit v hv
    rw [hvk, Option.some.injEq] at hk
    exact hk ▸ clamp_le _

/-- A visit goes on from the length of the node before it. -/
theorem exists_of_visit (h : r.Tells d w roots ls) {v : Visit} (hv : v ∈ r.walk roots) :
    ∃ j toll, ls.get? v.src = some j ∧ w.toll d v.node = some toll ∧
      ls.get? v.node = some (clamp (j + toll)) := by
  obtain ⟨depth, hsrc, -⟩ := depth_of_mem_walk hv
  obtain ⟨j, hj⟩ : ∃ j, ls.get? v.src = some j := h.exists_get?_iff.mpr hsrc.hops.exists_start
  obtain ⟨toll, ht, hk⟩ := h.visit v hv
  rw [hj, Option.getD_some] at hk
  exact ⟨j, toll, hj, ht, hk⟩

/-- **A length goes on from the length one layer up**, which is no greater. -/
theorem exists_upstream (h : r.Tells d w roots ls) (hno : n ∉ roots) (hk : ls.get? n = some k) :
    ∃ m j toll depth, r.Leads m n ∧ ls.get? m = some j ∧ r.Depth roots m depth ∧
      r.Depth roots n (depth + 1) ∧ w.toll d n = some toll ∧ k = clamp (j + toll) ∧ j ≤ k := by
  obtain ⟨v, hv, rfl⟩ := (met_iff.mpr (h.exists_get?_iff.mp ⟨k, hk⟩)).resolve_left hno
  have hl := (r.explores_walk roots).leads hv
  obtain ⟨depth, hsrc, hnode⟩ := depth_of_mem_walk hv
  obtain ⟨j, toll, hj, ht, hvk⟩ := h.exists_of_visit hv
  rw [hvk, Option.some.injEq] at hk
  have hmax := h.le_maxLength hj
  refine ⟨v.src, j, toll, depth, hl, hj, hsrc, hnode, ht, hk.symm, ?_⟩
  rw [← hk, clamp]
  omega

end Tells

/-- **What the lengths along a route are**, whatever the shape of the route. There are
none exactly if the route reaches a node that the device does not know and that is no
root, and such a node is what the failure names. Otherwise the nodes that have a length
are those that the route reaches; it is nothing at a root, and at any other node it is
the length one layer up and the toll, held at the greatest length. So lengths do not go
down from layer to layer. -/
theorem lengthsFrom_layered (r : Route) (w : Weighting) (d : Device) (net : String)
    (roots : List NodeId) :
    ((∃ e, r.lengthsFrom w d net roots = .error e) ↔
      ∃ n, n ∉ roots ∧ (∃ root ∈ roots, ReflTransGen r.Leads root n) ∧ d.node? n = none) ∧
    (∀ e, r.lengthsFrom w d net roots = .error e →
      ∃ n, n ∉ roots ∧ (∃ root ∈ roots, ReflTransGen r.Leads root n) ∧ d.node? n = none ∧
        e = .unknownNode net n) ∧
    ∀ ls, r.lengthsFrom w d net roots = .ok ls →
      (∀ n, (∃ k, ls.get? n = some k) ↔ ∃ root ∈ roots, ReflTransGen r.Leads root n) ∧
      (∀ n ∈ roots, ls.get? n = some 0) ∧
      ∀ n k, n ∉ roots → ls.get? n = some k →
        ∃ m j toll depth, r.Leads m n ∧ ls.get? m = some j ∧ r.Depth roots m depth ∧
          r.Depth roots n (depth + 1) ∧ w.toll d n = some toll ∧
          k = min (j + toll) maxLength ∧ j ≤ k := by
  have hfails : ∀ e, r.lengthsFrom w d net roots = .error e →
      ∃ n, n ∉ roots ∧ (∃ root ∈ roots, ReflTransGen r.Leads root n) ∧ d.node? n = none ∧
        e = .unknownNode net n := by
    intro e he
    obtain ⟨v, hv, hnode, rfl⟩ := exists_of_visits_eq_error he
    obtain ⟨hno, hto⟩ := exists_visit_iff.mp ⟨v, hv, rfl⟩
    exact ⟨v.node, hno, hto, hnode, rfl⟩
  refine ⟨⟨?_, ?_⟩, hfails, fun ls h => ?_⟩
  · rintro ⟨e, he⟩
    obtain ⟨n, hno, hto, hnode, -⟩ := hfails e he
    exact ⟨n, hno, hto, hnode⟩
  · rintro ⟨n, hno, hto, hnode⟩
    cases hls : r.lengthsFrom w d net roots with
    | error e => exact ⟨e, rfl⟩
    | ok ls =>
      -- the node would have been visited, and so be known
      obtain ⟨v, hv, rfl⟩ := exists_visit_iff.mpr ⟨hno, hto⟩
      obtain ⟨node, hknown⟩ := exists_visits_iff.mp ⟨ls, hls⟩ v hv
      rw [hnode] at hknown
      cases hknown
  · have htells := tells_lengthsFrom h
    exact ⟨fun n => htells.exists_get?_iff, htells.root, fun n k => htells.exists_upstream⟩

/-! ## A route in circles -/

/-- A route that comes to its fifth node by two ways, goes round in a circle there, and
leads on to a node that the device may not know. -/
def roundabout (exit : Nat) : Route :=
  ofArcs ([(1, 2), (2, 4), (1, 4), (4, 2), (4, exit)].mapIdx fun i hop => {
    src := .ofIndex hop.1, dst := .ofIndex hop.2, edge := .ofIndex i })

/-- The long node is one hop from the root and is reached by two as well: its length is
that of the one hop. An exit that the device does not know leaves no lengths at all. -/
theorem roundabout_layered :
    (∃ ls, (roundabout 3).lengthsFrom {} Placement.twoSinks.device "n" [.ofIndex 1] = .ok ls ∧
      ls.get? (.ofIndex 4) = some 120 ∧ ls.get? (.ofIndex 3) = some 120 ∧
      ∃ m depth, (roundabout 3).Leads m (.ofIndex 4) ∧
        (roundabout 3).Depth [.ofIndex 1] m depth ∧
        (roundabout 3).Depth [.ofIndex 1] (.ofIndex 4) (depth + 1)) ∧
    ∃ e, (roundabout 9).lengthsFrom {} Placement.twoSinks.device "n" [.ofIndex 1] = .error e := by
  constructor
  · have hread : ((roundabout 3).lengthsFrom {} Placement.twoSinks.device "n" [.ofIndex 1]).map
        (fun ls => (ls.get? (.ofIndex 4), ls.get? (.ofIndex 3))) = .ok (some 120, some 120) := by
      decide +kernel
    obtain ⟨-, -, hok⟩ :=
      lengthsFrom_layered (roundabout 3) {} Placement.twoSinks.device "n" [.ofIndex 1]
    cases hls : (roundabout 3).lengthsFrom {} Placement.twoSinks.device "n" [.ofIndex 1] with
    | error e =>
      rw [hls] at hread
      cases hread
    | ok ls =>
      rw [hls, Except.map, Except.ok.injEq, Prod.mk.injEq] at hread
      obtain ⟨m, j, toll, depth, hl, -, hm, hn, -⟩ :=
        (hok ls hls).2.2 (.ofIndex 4) 120 (by decide) hread.1
      exact ⟨ls, rfl, hread.1, hread.2, m, depth, hl, hm, hn⟩
  · refine (lengthsFrom_layered (roundabout 9) {} Placement.twoSinks.device "n"
      [.ofIndex 1]).1.mpr ⟨.ofIndex 9, by decide, ⟨.ofIndex 1, by decide, ?_⟩, by decide +kernel⟩
    have h14 : (roundabout 9).Leads (.ofIndex 1) (.ofIndex 4) := mem_successors.mp (by decide)
    have h49 : (roundabout 9).Leads (.ofIndex 4) (.ofIndex 9) := mem_successors.mp (by decide)
    exact .tail (.single h14) h49

end HoldMargin.Route
