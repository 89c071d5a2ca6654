import HoldMargin.Proofs.Sketched
/-!
# What decides whether a sink is routed

Whether a sink is routed is a question about its node, the drivers of its net and the
committed edges, and it has an answer exactly if all of these are there
(`Placement.exists_isRouted_iff`). The shape of the route plays no part: edges may run in
circles, arrive at a node twice or lie where no driver leads. The walk from the roots
takes as many rounds as the route has arcs, and that is enough on any route, since each
round but the last uses up an arc (`Route.walkFrom_add`).
-/

namespace HoldMargin

open Relation

namespace Placement

variable {p : Placement} {r : Routing} {id : NetId} {sink : PinId} {n : Net} {target : NodeId}

/-- **All that a sink's route is made of is there**: its net with the pins of the drivers,
the node of its pin, and the committed edges. -/
structure Resolves (p : Placement) (r : Routing) (id : NetId) (sink : PinId) (n : Net)
    (target : NodeId) : Prop where
  net : p.netlist.net? id = some n
  drivers : ∀ driver ∈ n.drivers, ∃ pin, p.netlist.pin? driver = some pin
  target : p.pinNode sink = .ok target
  edges : p.device.Knows (r.of id)

namespace Resolves

theorem exists_route (h : p.Resolves r id sink n target) :
    ∃ route, p.routeOfNet r id = .ok route :=
  exists_routeOfNet_iff.mpr ⟨⟨n, net_eq_ok.mpr h.net⟩, h.edges⟩

theorem exists_roots (h : p.Resolves r id sink n target) :
    ∃ roots, p.rootsOfNet id = .ok roots :=
  exists_rootsOfNet_iff.mpr ⟨n, h.net, h.drivers⟩

/-- A driver supplies the node of the sink if the node is a root, or if edges lead there
from one. -/
theorem supplies_iff (h : p.Resolves r id sink n target) {roots : NodeSet}
    (hroots : p.rootsOfNet id = .ok roots) :
    p.device.Supplies (r.of id) roots target ↔ p.IsRoot n target ∨
      ∃ root, p.IsRoot n root ∧ TransGen (p.device.Leads (r.of id)) root target := by
  constructor
  · rintro ⟨root, hroot, hto⟩
    rw [mem_roots_iff h.net hroots] at hroot
    rcases reflTransGen_iff_eq_or_transGen.mp hto with rfl | hto
    · exact .inl hroot
    · exact .inr ⟨root, hroot, hto⟩
  · rintro (hroot | ⟨root, hroot, hto⟩)
    · exact ⟨target, (mem_roots_iff h.net hroots).mpr hroot, .refl⟩
    · exact ⟨root, (mem_roots_iff h.net hroots).mpr hroot, hto.to_reflTransGen⟩

end Resolves

/-- **There is an answer exactly if all is there** that the question is about. -/
theorem exists_isRouted_iff :
    (∃ answer, p.isRouted r id sink = .ok answer) ↔ ∃ n target, p.Resolves r id sink n target := by
  constructor
  · rintro ⟨answer, h⟩
    obtain ⟨target, htarget, h⟩ := bind_eq_ok.mp h
    obtain ⟨route, hroute, h⟩ := bind_eq_ok.mp h
    obtain ⟨roots, hroots, -⟩ := bind_eq_ok.mp h
    obtain ⟨n, hnet, hdrivers⟩ := exists_rootsOfNet_iff.mp ⟨roots, hroots⟩
    exact ⟨n, target, hnet, hdrivers, htarget, (exists_routeOfNet_iff.mp ⟨route, hroute⟩).2⟩
  · rintro ⟨n, target, h⟩
    obtain ⟨route, hroute⟩ := h.exists_route
    obtain ⟨roots, hroots⟩ := h.exists_roots
    exact ⟨_, isRouted_of_known h.target hroute hroots⟩

/-- **A sink is routed if its node is a root, or if committed edges lead there from one**,
and not otherwise, on a route of any shape. The walk that finds it out visits no node twice
and is over by the time it stops. -/
theorem isRouted_determined (h : p.Resolves r id sink n target) :
    ∃ route roots answer, p.routeOfNet r id = .ok route ∧ p.rootsOfNet id = .ok roots ∧
      p.isRouted r id sink = .ok answer ∧
      (answer = true ↔ p.IsRoot n target ∨
        ∃ root, p.IsRoot n root ∧ TransGen (p.device.Leads (r.of id)) root target) ∧
      ((route.walk roots.toList).map Visit.node).Nodup ∧
      ∀ more, route.walkFrom roots.toList.eraseDups roots.toList.eraseDups
        (route.arcs.length + more) = route.walk roots.toList := by
  obtain ⟨route, hroute⟩ := h.exists_route
  obtain ⟨roots, hroots⟩ := h.exists_roots
  refine ⟨route, roots, _, hroute, hroots, isRouted_of_known h.target hroute hroots, ?_,
    (route.explores_walk roots.toList).nodup, Route.walkFrom_add List.countP_le_length⟩
  rw [Route.reaches_iff, (draws_of_routeOfNet hroute).leads_eq, ← h.supplies_iff hroots]
  rfl

/-! ## Circles -/

/-- A sink behind a circle that the driver leads into, and a sink behind a circle that
nothing leads into. -/
def circles : Placement :=
  sketch [⟨.sitePin, none⟩, ⟨.output, none⟩, ⟨.single, none⟩, ⟨.sitePin, none⟩, ⟨.long, none⟩,
      ⟨.single, none⟩, ⟨.sitePin, none⟩]
    [(0, 1), (1, 2), (2, 1), (2, 3), (4, 5), (5, 4), (5, 6)] [("A", 3), ("B", 6)]

theorem resolves_circles {sink : PinId} {target : NodeId}
    (htarget : circles.pinNode sink = .ok target) :
    circles.Resolves (.sketch [0, 1, 2, 3, 4, 5, 6]) (.ofIndex 0) sink circles.netlist.nets[0]
      target where
  net := rfl
  drivers := by
    have hpins : ∀ driver ∈ circles.netlist.nets[0].drivers,
        (circles.netlist.pin? driver).isSome := by decide +kernel
    exact fun driver hdriver => Option.isSome_iff_exists.mp (hpins driver hdriver)
  target := htarget
  edges := by
    have hedges : ∀ i ∈ ((Routing.sketch [0, 1, 2, 3, 4, 5, 6]).of (.ofIndex 0)).toList,
        (circles.device.edge? i).isSome := by decide +kernel
    exact fun i hi => Option.isSome_iff_exists.mp (hedges i (IdSet.mem_def.mp hi))

/-- All edges are committed: the first sink is routed, as edges lead to it from a root; the
second one is not, so none do. -/
theorem circles_determined :
    (∃ root, circles.IsRoot circles.netlist.nets[0] root ∧ TransGen
      (circles.device.Leads ((Routing.sketch [0, 1, 2, 3, 4, 5, 6]).of (.ofIndex 0)))
      root (.ofIndex 3)) ∧
    ¬ ∃ root, circles.IsRoot circles.netlist.nets[0] root ∧ TransGen
      (circles.device.Leads ((Routing.sketch [0, 1, 2, 3, 4, 5, 6]).of (.ofIndex 0)))
      root (.ofIndex 6) := by
  have htarget : circles.pinNode (.ofIndex 1) = .ok (.ofIndex 3) := by decide +kernel
  have htarget' : circles.pinNode (.ofIndex 2) = .ok (.ofIndex 6) := by decide +kernel
  obtain ⟨-, roots, answer, -, hroots, hanswer, hiff, -⟩ :=
    isRouted_determined (resolves_circles htarget)
  obtain ⟨-, -, answer', -, -, hanswer', hiff', -⟩ :=
    isRouted_determined (resolves_circles htarget')
  have hfirst : circles.isRouted (.sketch [0, 1, 2, 3, 4, 5, 6]) (.ofIndex 0) (.ofIndex 1) =
      .ok true := by decide +kernel
  have hsecond : circles.isRouted (.sketch [0, 1, 2, 3, 4, 5, 6]) (.ofIndex 0) (.ofIndex 2) =
      .ok false := by decide +kernel
  rw [hfirst, Except.ok.injEq] at hanswer
  rw [hsecond, Except.ok.injEq] at hanswer'
  refine ⟨(hiff.mp hanswer.symm).resolve_left fun hroot => ?_, fun hto => ?_⟩
  · have hno : circles.rootsOfNet (.ofIndex 0) =
        .ok (IdSet.ofList [.ofIndex 0, .ofIndex 1]) := by decide +kernel
    rw [hroots, Except.ok.injEq] at hno
    subst hno
    exact absurd ((mem_roots_iff rfl hroots).mpr hroot) (by decide)
  · rw [hiff'.mpr (.inr hto)] at hanswer'
    cases hanswer'

end Placement

end HoldMargin
