import HoldMargin.Proofs.Sketched
/-!
# What the maze router reaches

The maze router grows a route from any node of it that is not to be
avoided, and does not look whether a driver leads there. Every sink it was
asked for is therefore led to from a root, or from a loose end that the
route had before (`mazeRouter_reaches`). In the second case the router is
content and the sink is not routed (`routedStub_not_routed`). Nothing else
can go wrong on the way from sink to sink, because whatever has been grown
is led to from the same stems (`Device.Sprouts.grow`).
-/

namespace HoldMargin

open Relation

namespace Device

variable {d : Device} {es fs : EdgeSet} {roots avoid : NodeSet} {n source target : NodeId}
  {path : List EdgeId}

/-- **A loose end of a route**: a node that the route touches and that no root
leads to. -/
def LooseEnd (d : Device) (es : EdgeSet) (roots : NodeSet) (n : NodeId) : Prop :=
  d.Touches es n ∧ ¬ d.Supplies es roots n

/-- Where a route may be grown from: a root, or a loose end that is not to be
avoided. -/
def Stem (d : Device) (es : EdgeSet) (roots avoid : NodeSet) (n : NodeId) : Prop :=
  n ∈ roots ∨ d.LooseEnd es roots n ∧ n ∉ avoid

/-- A node that `fs` leads to from a stem of the route `es`. -/
def Borne (d : Device) (es : EdgeSet) (roots avoid : NodeSet) (fs : EdgeSet) (n : NodeId) : Prop :=
  ∃ m, d.Stem es roots avoid m ∧ ReflTransGen (d.Leads fs) m n

/-- **What has been grown out of a route** is borne by the stems of that route,
but for nodes to be avoided. -/
def Sprouts (d : Device) (es : EdgeSet) (roots avoid : NodeSet) (fs : EdgeSet) : Prop :=
  ∀ n, d.Touches fs n → n ∉ avoid → d.Borne es roots avoid fs n

theorem Borne.mono {gs : EdgeSet} (hsub : ∀ i ∈ fs, i ∈ gs) (h : d.Borne es roots avoid fs n) :
    d.Borne es roots avoid gs n := by
  obtain ⟨m, hm, hto⟩ := h
  exact ⟨m, hm, ReflTransGen.mono (fun _ _ hl => hl.mono hsub) _ _ hto⟩

theorem Supplies.borne (h : d.Supplies fs roots n) : d.Borne es roots avoid fs n := by
  obtain ⟨root, hroot, hto⟩ := h
  exact ⟨root, .inl hroot, hto⟩

/-- A route that has not been grown is borne by its own stems. -/
theorem Sprouts.refl (d : Device) (es : EdgeSet) (roots avoid : NodeSet) :
    d.Sprouts es roots avoid es := by
  intro n ht hn
  by_cases hs : d.Supplies es roots n
  · exact hs.borne
  · exact ⟨n, .inr ⟨⟨ht, hs⟩, hn⟩, .refl⟩

namespace Sprouts

/-- Where a path may start is borne. -/
theorem borne_source (h : d.Sprouts es roots avoid fs)
    (hsource : source ∈ roots ∨ d.Touches fs source ∧ source ∉ avoid) :
    d.Borne es roots avoid fs source := by
  rcases hsource with hroot | ⟨ht, hn⟩
  · exact (supplies_of_mem hroot).borne
  · exact h source ht hn

/-- **A path that is added is borne**, all of it. -/
theorem borne_path (h : d.Sprouts es roots avoid fs)
    (hsource : source ∈ roots ∨ d.Touches fs source ∧ source ∉ avoid)
    (hpath : d.IsPath source path target) (hn : n ∈ source :: d.entered path) :
    d.Borne es roots avoid (fs.union path) n := by
  have hsub : ∀ i ∈ fs, i ∈ fs.union path := fun i hi => IdSet.mem_union.mpr (.inl hi)
  obtain ⟨m, hm, hto⟩ := (h.borne_source hsource).mono hsub
  exact ⟨m, hm, hto.trans (hpath.leads_to (fun i hi => IdSet.mem_union.mpr (.inr hi)) hn)⟩

/-- **A path brings up no new stem.** -/
theorem grow (h : d.Sprouts es roots avoid fs)
    (hsource : source ∈ roots ∨ d.Touches fs source ∧ source ∉ avoid)
    (hpath : d.IsPath source path target) : d.Sprouts es roots avoid (fs.union path) := by
  intro n ht hn
  rcases hpath.touches_union ht with ht | hmem
  · exact (h n ht hn).mono fun i hi => IdSet.mem_union.mpr (.inl hi)
  · exact h.borne_path hsource hpath hmem

end Sprouts

end Device

namespace Placement

variable {p : Placement} {limit : Nat} {o : Occupancy} {r : Routing} {net : NetId}
  {avoid roots : NodeSet} {sink : PinId} {sinks : List PinId} {path : List EdgeId}

/-! ## One sink -/

/-- **What is committed for a sink**, whatever is to be avoided: nothing, if it
is routed, or a path to its node from a root or from a node of the route. -/
structure Commits (p : Placement) (r : Routing) (net : NetId) (avoid : NodeSet) (sink : PinId)
    (path : List EdgeId) (roots : NodeSet) (target : NodeId) : Prop where
  rooted : p.rootsOfNet net = .ok roots
  at_node : p.pinNode sink = .ok target
  known : ∃ route, p.routeOfNet r net = .ok route
  leads : path = [] ∧ p.device.Supplies (r.of net) roots target ∨
    ∃ source, (source ∈ roots ∨ p.device.Touches (r.of net) source ∧ source ∉ avoid) ∧
      p.device.IsPath source path target

theorem commits_of_pathToSink (hd : p.device.Ready)
    (h : p.pathToSink limit o r net avoid sink = .ok path) :
    ∃ roots target, p.Commits r net avoid sink path roots target := by
  rcases pathToSink_cases h with ⟨rfl, hrouted⟩ | ⟨target, query, htarget, hq, h⟩
  · obtain ⟨target, route, roots, htarget, hroute, hroots, hs⟩ := isRouted_eq_ok_true.mp hrouted
    exact ⟨roots, target, hroots, htarget, ⟨route, hroute⟩, .inl ⟨rfl, hs⟩⟩
  · obtain ⟨hroute, roots, hroots, rfl, hsources⟩ := pathQuery_eq_ok hq
    obtain ⟨source, hsource, hpath, -⟩ := PathQuery.search_eq_ok hd h
    exact ⟨roots, query.target, hroots, htarget, hroute,
      .inr ⟨source, (hsources source).mp hsource, hpath⟩⟩

namespace Commits

variable {target : NodeId}

/-- With the path added the net still has a route. -/
theorem known_after (h : p.Commits r net avoid sink path roots target) :
    ∃ route, p.routeOfNet (r.set net ((r.of net).union path)) net = .ok route := by
  obtain ⟨hnet, hedges⟩ := exists_routeOfNet_iff.mp h.known
  refine exists_routeOfNet_iff.mpr ⟨hnet, fun i hi => ?_⟩
  rw [Routing.of_set_self, IdSet.mem_union] at hi
  rcases hi with hi | hi
  · exact hedges i hi
  · rcases h.leads with ⟨rfl, -⟩ | ⟨source, -, hpath⟩
    · cases hi
    · exact hpath.knows i hi

theorem sprouts {es : EdgeSet} (h : p.Commits r net avoid sink path roots target)
    (hs : p.device.Sprouts es roots avoid (r.of net)) :
    p.device.Sprouts es roots avoid ((r.of net).union path) := by
  rcases h.leads with ⟨rfl, -⟩ | ⟨source, hsource, hpath⟩
  · exact hs
  · exact hs.grow hsource hpath

/-- **The sink in hand is borne**, be it routed already or led to by the path. -/
theorem borne {es : EdgeSet} (h : p.Commits r net avoid sink path roots target)
    (hs : p.device.Sprouts es roots avoid (r.of net)) :
    p.device.Borne es roots avoid ((r.of net).union path) target := by
  rcases h.leads with ⟨rfl, hsupplied⟩ | ⟨source, hsource, hpath⟩
  · exact hsupplied.borne
  · exact hs.borne_path hsource hpath hpath.target_mem

end Commits

/-! ## All sinks -/

/-- A net that a sink has been routed for has roots and a route. -/
theorem exists_roots_of_routeSinks (hd : p.device.Ready) {r' : Routing}
    (h : p.routeSinks limit net avoid sinks o r = (r', .ok ())) (hsink : sink ∈ sinks) :
    (∃ roots, p.rootsOfNet net = .ok roots) ∧ ∃ route, p.routeOfNet r net = .ok route := by
  cases sinks with
  | nil => cases hsink
  | cons first rest =>
    rw [routeSinks] at h
    split at h
    · cases h
    · rename_i path hpath
      obtain ⟨roots, target, hc⟩ := commits_of_pathToSink hd hpath
      exact ⟨⟨roots, hc.rooted⟩, hc.known⟩

/-- The edges of a route are kept, and the net has a route still. -/
theorem known_of_routeSinks (hd : p.device.Ready) {r' : Routing}
    (h : p.routeSinks limit net avoid sinks o r = (r', .ok ()))
    (hknown : ∃ route, p.routeOfNet r net = .ok route) :
    (∀ i ∈ r.of net, i ∈ r'.of net) ∧ ∃ route, p.routeOfNet r' net = .ok route := by
  induction sinks generalizing o r with
  | nil =>
    cases h
    exact ⟨fun _ hi => hi, hknown⟩
  | cons sink sinks ih =>
    rw [routeSinks] at h
    split at h
    · cases h
    · rename_i path hpath
      obtain ⟨roots, target, hc⟩ := commits_of_pathToSink hd hpath
      obtain ⟨hkept, hroute⟩ := ih h hc.known_after
      rw [Routing.of_set_self] at hkept
      exact ⟨fun i hi => hkept i (IdSet.mem_union.mpr (.inl hi)), hroute⟩

/-- **When all sinks have been worked off**, each of them is borne by the stems
of the route as it was at first. -/
theorem borne_of_routeSinks (hd : p.device.Ready) {es : EdgeSet} {r' : Routing}
    (hroots : p.rootsOfNet net = .ok roots) (hs : p.device.Sprouts es roots avoid (r.of net))
    (h : p.routeSinks limit net avoid sinks o r = (r', .ok ())) :
    ∀ sink ∈ sinks, ∃ target, p.pinNode sink = .ok target ∧
      p.device.Borne es roots avoid (r'.of net) target := by
  induction sinks generalizing o r with
  | nil => exact fun _ hno => nomatch hno
  | cons first rest ih =>
    rw [routeSinks] at h
    split at h
    · cases h
    · rename_i path hpath
      obtain ⟨roots', target, hc⟩ := commits_of_pathToSink hd hpath
      obtain rfl : roots = roots' := by simpa [hroots] using hc.rooted
      have hsprouts := hc.sprouts hs
      rw [← Routing.of_set_self r net ((r.of net).union path)] at hsprouts
      intro sink hsink
      rcases List.mem_cons.mp hsink with rfl | hsink
      · -- later paths only add to the one that leads here
        have hkept := (known_of_routeSinks hd h hc.known_after).1
        rw [Routing.of_set_self] at hkept
        exact ⟨target, hc.at_node, (hc.borne hs).mono hkept⟩
      · exact ih hsprouts h sink hsink

end Placement

/-- **What the maze router reaches.** If it succeeds, every sink it was asked for
is routed, or hangs on a loose end that the route had before and that was not
to be avoided. -/
theorem mazeRouter_reaches {p : Placement} {limit : Nat} {r : Routing} {request : RouteRequest}
    {sink : PinId} (hd : p.device.Ready)
    (hok : ((mazeRouter limit).route p () r request).outcome = .ok ())
    (hsink : sink ∈ request.sinks) :
    let after := ((mazeRouter limit).route p () r request).routing
    p.isRouted after request.net sink = .ok true ∨
      p.isRouted after request.net sink = .ok false ∧
        ∃ roots target n, p.rootsOfNet request.net = .ok roots ∧ p.pinNode sink = .ok target ∧
          p.device.LooseEnd (r.of request.net) roots n ∧ n ∉ request.avoid ∧
          ReflTransGen (p.device.Leads (after.of request.net)) n target := by
  intro after
  have hroute : ∃ o, p.routeSinks limit request.net request.avoid request.sinks o r =
      (after, .ok ()) := by
    simp only [after, mazeRouter] at hok ⊢
    split at hok
    · cases hok
    · rename_i o _
      exact ⟨o, Prod.ext rfl hok⟩
  obtain ⟨o, hroute⟩ := hroute
  obtain ⟨⟨roots, hroots⟩, hknown⟩ := Placement.exists_roots_of_routeSinks hd hroute hsink
  obtain ⟨route, hafter⟩ := (Placement.known_of_routeSinks hd hroute hknown).2
  obtain ⟨target, htarget, m, hm, hto⟩ := Placement.borne_of_routeSinks hd hroots
    (Device.Sprouts.refl p.device (r.of request.net) roots request.avoid) hroute sink hsink
  have hanswer := Placement.isRouted_of_known htarget hafter hroots
  rcases hm with hroot | ⟨hloose, hn⟩
  · exact .inl (Placement.isRouted_eq_ok_true.mpr
      ⟨target, route, roots, htarget, hafter, hroots, m, hroot, hto⟩)
  · cases hreaches : route.reaches roots.toList target with
    | true => exact .inl (hreaches ▸ hanswer)
    | false =>
      exact .inr ⟨hreaches ▸ hanswer, roots, target, m, hroots, htarget, hloose, hn, hto⟩

/-! ## Growing from a driver, and from a stub -/

namespace Placement

/-- Both sinks are to be routed. -/
def bothSinks : RouteRequest where
  net := .ofIndex 0
  sinks := [.ofIndex 1, .ofIndex 2]
  avoid := ∅

/-- The route that has come as far as the output of the driver. -/
def bareDriver : Routing := .sketch [0]

theorem grownTwoSinks_reached :
    let reply := (mazeRouter 1000).route twoSinks () bareDriver bothSinks
    twoSinks.device.Ready ∧ reply.outcome = .ok () ∧ .ofIndex 2 ∈ bothSinks.sinks ∧
      twoSinks.isRouted reply.routing (.ofIndex 0) (.ofIndex 2) = .ok true := by
  have hok : ((mazeRouter 1000).route twoSinks () bareDriver bothSinks).outcome = .ok () := by
    decide +kernel
  have hsink : .ofIndex 2 ∈ bothSinks.sinks := by decide
  have hdescends : twoSinks.device.Descends (bareDriver.of (.ofIndex 0)) := by decide +kernel
  have hattached : twoSinks.device.Attached (bareDriver.of (.ofIndex 0))
      (IdSet.ofList [.ofIndex 0, .ofIndex 1]) := hdescends.attached (by decide +kernel)
  refine ⟨ready_twoSinks, hok, hsink, ?_⟩
  -- nothing hangs loose at the driver, so the sink is routed
  refine (mazeRouter_reaches ready_twoSinks hok hsink).resolve_right ?_
  rintro ⟨-, roots, target, n, hroots, -, hloose, -, -⟩
  obtain rfl : IdSet.ofList [.ofIndex 0, .ofIndex 1] = roots := by
    simpa [bothSinks, rootsOfNet_twoSinks] using hroots
  exact hloose.2 (hattached n hloose.1)

/-- A sink with one way there. -/
def oneWayIn : Placement :=
  sketch [⟨.sitePin, none⟩, ⟨.output, none⟩, ⟨.single, none⟩, ⟨.sitePin, none⟩]
    [(0, 1), (1, 2), (2, 3)] [("A", 3)]

/-- The route that is only a stub at the sink. -/
def stub : Routing := .sketch [2]

/-- The sink is to be routed. -/
def onlySink : RouteRequest where
  net := .ofIndex 0
  sinks := [.ofIndex 1]
  avoid := ∅

/-- **A stub at the sink is taken for a route:** the router succeeds without
committing anything, and the sink is not routed. -/
theorem routedStub_not_routed :
    let reply := (mazeRouter 1000).route oneWayIn () stub onlySink
    oneWayIn.device.Ready ∧ reply.outcome = .ok () ∧ .ofIndex 1 ∈ onlySink.sinks ∧
      reply.routing.of (.ofIndex 0) = stub.of (.ofIndex 0) ∧
      oneWayIn.isRouted reply.routing (.ofIndex 0) (.ofIndex 1) = .ok false := by
  refine ⟨Device.ready_reindex (by decide +kernel), ?_⟩
  decide +kernel

end Placement

end HoldMargin
