import HoldMargin.Proofs.Forested
import HoldMargin.Proofs.Supplied
import HoldMargin.Proofs.Tracked
/-!
# Which sinks keep their route

A session may cost a sink its route without a word about it: where the
device leads on from the node of a sink, that node can lie on the branch of
another sink, which takes it along. If the sinks of a net are dead ends, its
route has no loose ends, and a route is put back when a repair fails or no
two sinks share a node, then every sink of the net that was routed is routed
afterwards, but for those that were given up on with their route lost
(`Placement.repair_keeps_routes`).
-/

namespace HoldMargin

/-- A pick that cost its sink the route. -/
def Pick.LosesRoute (pick : Pick) : Prop :=
  ∃ record, pick.outcome = .abandoned record ∧ record.reason.cutsOff = true ∧
    record.restored = false

namespace Placement

/-- A net no two sinks of which share a node. -/
def SinksApart (p : Placement) (net : NetId) : Prop :=
  ∀ n, p.netlist.net? net = some n → ∀ a ∈ n.sinks, ∀ b ∈ n.sinks, ∀ node,
    p.pinNode a = .ok node → p.pinNode b = .ok node → a = b

/-- A net whose route has no loose ends. -/
def IsAttached (p : Placement) (r : Routing) (net : NetId) : Prop :=
  ∀ roots, p.rootsOfNet net = .ok roots → p.device.Attached (r.of net) roots

end Placement

/-- A rooted route that leads to later nodes has no loose ends. -/
theorem Device.Descends.isAttached {p : Placement} {r : Routing} {net : NetId} {roots : NodeSet}
    (h : p.device.Descends (r.of net)) (hroots : p.rootsOfNet net = .ok roots)
    (hrooted : p.device.Rooted (r.of net) roots) : p.IsAttached r net := by
  intro roots' hroots'
  rw [hroots, Except.ok.injEq] at hroots'
  exact hroots' ▸ h.attached hrooted

namespace Repairer

variable {rp : Repairer Unit} {limit : Nat} {c : Ranked} {kept roots : NodeSet} {target : NodeId}
  {es : EdgeSet} {before : Routing} {pg pg' : Progress Unit} {keeps : NodeId → Prop}

/-! ## One connection -/

/-- **What the route of a net has kept** of what the edges `es` supplied: the
nodes that `keeps` names. -/
structure Carries (rp : Repairer Unit) (net : NetId) (roots : NodeSet) (es : EdgeSet)
    (keeps : NodeId → Prop) (r : Routing) : Prop where
  attached : rp.placement.device.Attached (r.of net) roots
  knows : rp.placement.device.Knows (r.of net)
  supplies : ∀ n, keeps n → rp.placement.device.Supplies es roots n →
    rp.placement.device.Supplies (r.of net) roots n

/-- All dead ends but one. -/
def OtherEnds (d : Device) (target n : NodeId) : Prop := d.DeadEnd n ∧ n ≠ target

/-- **A round keeps every dead end but that of the sink**, and that one as well
if the router was content. -/
theorem Carries.round (hrouter : rp.router = mazeRouter limit) (hd : rp.placement.device.Ready)
    (hroots : rp.placement.rootsOfNet c.net = .ok roots)
    (htarget : rp.placement.pinNode c.sink = .ok target) (hmem : target ∈ kept)
    (hend : rp.placement.device.DeadEnd target)
    (hf : rp.placement.device.IsForest (pg.routing.of c.net)) (havoid : ∀ n ∈ pg.avoid, n ∉ kept)
    (h : rp.Carries c.net roots es rp.placement.device.DeadEnd pg.routing) {res : RoundResult}
    (hround : rp.round c kept pg = (pg', res)) :
    (∃ e, res = .stopped e) ∨
      rp.Carries c.net roots es (OtherEnds rp.placement.device target) pg'.routing ∧
        ∀ length grew, res = .rerouted length grew →
          rp.Carries c.net roots es rp.placement.device.DeadEnd pg'.routing := by
  rcases round_cases hround with ⟨-, e, -, rfl⟩ | ⟨branch, nodes, rd, reply, ha, hres⟩
  · exact .inl ⟨e, rfl⟩
  obtain ⟨path, hmoves, hreply⟩ := ha.moves hrouter hd hf hroots htarget hmem havoid
  have hbefore := h
  rw [← ha.before] at hbefore
  have hafter : pg'.routing = rd.after := by rw [ha.routing, ha.after]
  have hother : rp.Carries c.net roots es (OtherEnds rp.placement.device target) pg'.routing := by
    rw [hafter]
    exact ⟨hmoves.attached_after hend hbefore.attached, hmoves.knows_after hbefore.knows,
      fun n hn hs => hmoves.supplies_after hend hn.1 hn.2 (hbefore.supplies n hn.1 hs)⟩
  refine .inr ⟨hother, fun length grew hlength =>
    ⟨hother.attached, hother.knows, fun n hn hs => ?_⟩⟩
  -- the node of the sink is served again, or the round did not reroute it
  by_cases hnt : n = target
  · subst hnt
    rcases hreply with ⟨⟨e, he⟩, -⟩ | ⟨-, hserves⟩
    · rcases hres with ⟨_, -, hno⟩ | ⟨_, -, hno⟩ | ⟨hok, -⟩
      · rw [hlength] at hno
        cases hno
      · rw [hlength] at hno
        cases hno
      · rw [he] at hok
        cases hok
    · rw [hafter]
      exact hmoves.supplies_target hend hbefore.attached hserves
  · exact hother.supplies n ⟨hn, hnt⟩ hs

/-- What is left when a connection to `target` is done with: it is not routed
any more only if it was given up on and lost its route. -/
def Leaves (rp : Repairer Unit) (net : NetId) (roots : NodeSet) (target : NodeId) (es : EdgeSet)
    (done : Progress Unit × RepairOutcome) : Prop :=
  (∃ e, done.2 = .stopped e) ∨
    rp.Carries net roots es (OtherEnds rp.placement.device target) done.1.routing ∧
      (rp.settings.repair.rollbackOnFailure = false ∧ (∃ record, done.2 = .abandoned record ∧
          record.reason.cutsOff = true ∧ record.restored = false) ∨
        rp.Carries net roots es rp.placement.device.DeadEnd done.1.routing)

theorem Carries.leaves (h : rp.Carries c.net roots es rp.placement.device.DeadEnd pg.routing)
    (out : RepairOutcome) : rp.Leaves c.net roots target es (pg, out) :=
  .inr ⟨⟨h.attached, h.knows, fun n hn => h.supplies n hn.1⟩, .inr h⟩

/-- A connection that is given up on with its route lost gets the route back,
or is recorded. -/
theorem Carries.leaves_giveUp
    (h : rp.Carries c.net roots es (OtherEnds rp.placement.device target) pg.routing)
    (hbefore : rp.Carries c.net roots es rp.placement.device.DeadEnd before) (length : Option Nat)
    {reason : RepairFailure} (hreason : reason.cutsOff = false →
      rp.Carries c.net roots es rp.placement.device.DeadEnd pg.routing) :
    rp.Leaves c.net roots target es (rp.giveUp c before pg length reason) := by
  rcases giveUp_cases pg length reason with ⟨e, -, heq⟩ | ⟨record, hrec, hrestored, heq⟩
  · rw [heq]
    exact .inl ⟨e, rfl⟩
  · rw [heq]
    -- a route that is put back supplies what it supplied before
    cases hrest : record.restored with
    | true =>
      have hof : (pg.routing.set c.net (before.of c.net)).of c.net = before.of c.net :=
        Routing.of_set_self _ _ _
      refine Carries.leaves ⟨?_, ?_, ?_⟩ _
      · simpa only [if_true, hof] using hbefore.attached
      · simpa only [if_true, hof] using hbefore.knows
      · simpa only [if_true, hof] using hbefore.supplies
    | false =>
      cases hcut : reason.cutsOff with
      | true =>
        rw [hrest, hcut, Bool.true_and] at hrestored
        exact .inr ⟨h, .inl ⟨hrestored.symm, record, rfl, hrec ▸ hcut, hrest⟩⟩
      | false => exact Carries.leaves (hreason hcut) _

/-- **What the repair of a connection leaves of the route of its net.** -/
theorem leaves_repairOne (hrouter : rp.router = mazeRouter limit)
    (hd : rp.placement.device.Ready) (hforest : rp.placement.IsForested before)
    (hroots : rp.placement.rootsOfNet c.net = .ok roots)
    (hend : ∀ target, rp.placement.pinNode c.sink = .ok target → rp.placement.device.DeadEnd target)
    (ha : rp.placement.device.Attached (before.of c.net) roots)
    (hk : rp.placement.device.Knows (before.of c.net)) (state : Unit) :
    (∃ e, (rp.repairOne c state before).2 = .stopped e) ∨
      ∃ target, rp.placement.pinNode c.sink = .ok target ∧
        rp.Leaves c.net roots target (before.of c.net) (rp.repairOne c state before) := by
  have hbefore : rp.Carries c.net roots (before.of c.net) rp.placement.device.DeadEnd before :=
    ⟨ha, hk, fun n _ hs => hs⟩
  generalize hrep : rp.repairOne c state before = rep
  obtain ⟨pg, out⟩ := rep
  rcases repairOne_cases hrep with ⟨e, -, -, rfl⟩ | ⟨kept, hkept, heq⟩
  · exact .inl ⟨e, rfl⟩
  obtain ⟨-, target, -, htarget, hmem⟩ := Placement.keptNodes_eq_ok hkept
  obtain ⟨n, hn⟩ := net?_of_keptNodes hkept
  refine .inr ⟨target, htarget, ?_⟩
  rw [← heq]
  have hround : ∀ pg pg' res, rp.Sound c kept pg →
      rp.Carries c.net roots (before.of c.net) rp.placement.device.DeadEnd pg.routing →
      rp.round c kept pg = (pg', res) → _ := fun pg pg' res hs hc hround =>
    hc.round hrouter hd hroots htarget hmem (hend target htarget) (hs.forested c.net n hn) hs.avoid
      hround
  refine rounds_rule
    (P := fun pg => rp.Sound c kept pg ∧
      rp.Carries c.net roots (before.of c.net) rp.placement.device.DeadEnd pg.routing)
    (Q := rp.Leaves c.net roots target (before.of c.net)) ?_ ?_ ?_ ?_ ?_ _
    ⟨⟨hforest, by simp, by simp⟩, hbefore⟩ _
  · exact fun pg pg' e _ _ => .inl ⟨e, rfl⟩
  · rintro pg pg' ⟨hs, hc⟩ hr
    rcases hround pg pg' _ hs hc hr with ⟨e, he⟩ | ⟨hother, -⟩
    · cases he
    · exact hother.leaves_giveUp hbefore _ fun h => nomatch h
  · rintro pg pg' grew ⟨hs, hc⟩ hr
    rcases hround pg pg' _ hs hc hr with ⟨e, he⟩ | ⟨hother, -⟩
    · cases he
    · exact hother.leaves_giveUp hbefore _ fun h => nomatch h
  · rintro pg pg' length grew ⟨hs, hc⟩ hr -
    rcases hround pg pg' _ hs hc hr with ⟨e, he⟩ | ⟨-, hall⟩
    · cases he
    · exact (hall _ _ rfl).leaves _
  · rintro pg pg' length grew ⟨hs, hc⟩ hr -
    rcases hround pg pg' _ hs hc hr with ⟨e, he⟩ | ⟨hother, hall⟩
    · cases he
    · have hc' := hall _ _ rfl
      exact ⟨⟨(hs.round hrouter hd hkept hr).1, hc'⟩,
        fun reason _ => hother.leaves_giveUp hbefore _ fun _ => hc'⟩

/-! ## A session -/

/-- **What a session has kept of the routes of a net** that had the edges
`es`: every sink is supplied as before, or a pick has lost its route. -/
structure Retains (rp : Repairer Unit) (net : NetId) (n : Net) (roots : NodeSet) (es : EdgeSet)
    (s : Session Unit) : Prop where
  tracks : rp.Tracks s
  forested : rp.placement.IsForested s.routing
  attached : rp.placement.device.Attached (s.routing.of net) roots
  knows : rp.placement.device.Knows (s.routing.of net)
  supplies : ∀ sink ∈ n.sinks, ∀ node, rp.placement.pinNode sink = .ok node →
    rp.placement.device.Supplies es roots node →
    rp.placement.device.Supplies (s.routing.of net) roots node ∨
      ∃ pick ∈ s.picks, pick.candidate.key = { net, sink } ∧ pick.LosesRoute

variable {s s' : Session Unit} {rest : List Queued} {net : NetId} {n : Net}

/-- **A pick keeps the routes of a net**, but for the one that it says it
lost. -/
theorem Retains.of_pick (hrouter : rp.router = mazeRouter limit)
    (hd : rp.placement.device.Ready) (hn : rp.placement.netlist.net? net = some n)
    (hroots : rp.placement.rootsOfNet net = .ok roots) (hends : rp.placement.EndsInSinks net)
    (hsafe : rp.settings.repair.rollbackOnFailure = true ∨ rp.placement.SinksApart net)
    (h : rp.Retains net n roots es s) (hnext : s.next? = some (c, rest))
    (hpick : rp.pick s c rest = (s', none)) : rp.Retains net n roots es s' := by
  obtain ⟨pg, out, hp, ⟨e, -, hno⟩ | ⟨hgo, -⟩⟩ := pick_cases hpick
  · cases hno
  have hconf : rp.router.Confined := hrouter ▸ mazeRouter_confined limit
  have htracks := h.tracks.of_pick hconf hnext hpick
  have hforested := hp.isForested hrouter hd h.forested
  have hpicks : ∀ pick ∈ s.picks, pick ∈ s'.picks := fun pick hmem => by
    rw [hp.picks]
    exact List.mem_append_left _ hmem
  by_cases hnet : net = c.net
  · subst hnet
    obtain ⟨n', hn', hsink⟩ := (h.tracks.next?_eq_some hnext).1.mem_sinks
    rw [hn, Option.some.injEq] at hn'
    subst hn'
    have hleft := leaves_repairOne hrouter hd h.forested hroots
      (fun target ht => hends target (Placement.mem_sinkNodes hn hsink ht)) h.attached h.knows
      s.state
    rw [hp.repaired] at hleft
    rcases hleft with ⟨e, he⟩ | ⟨target, htarget, ⟨e, he⟩ | ⟨hother, hlast⟩⟩
    · exact absurd he (hgo e)
    · exact absurd he (hgo e)
    · rw [← hp.routing] at hother hlast
      refine ⟨htracks, hforested, hother.attached, hother.knows, fun sink hs node hnode hes => ?_⟩
      rcases h.supplies sink hs node hnode hes with hnow | ⟨pick, hmem, hlost⟩
      · by_cases hnt : node = target
        · subst hnt
          -- a route is lost without rollback only, and then no other sink is at the node
          rcases hlast with ⟨hrollback, hlost⟩ | hall
          · have hapart : rp.placement.SinksApart c.net := by
              refine hsafe.resolve_left ?_
              rw [hrollback]
              exact Bool.false_ne_true
            have hsame := hapart n hn sink hs c.sink hsink node hnode htarget
            exact .inr ⟨_, hp.mem_picks, by rw [hsame]; rfl, hlost⟩
          · exact .inl (hall.supplies node (hends node (Placement.mem_sinkNodes hn hs hnode)) hnow)
        · have hend := hends node (Placement.mem_sinkNodes hn hs hnode)
          exact .inl (hother.supplies node ⟨hend, hnt⟩ hnow)
      · exact .inr ⟨pick, hpicks pick hmem, hlost⟩
  · have hof : s'.routing.of net = s.routing.of net := by
      rw [hp.routing]
      exact repairOne_other hconf hp.repaired net hnet
    refine ⟨htracks, hforested, hof ▸ h.attached, hof ▸ h.knows, fun sink hsink node hnode hs => ?_⟩
    rw [hof]
    refine (h.supplies sink hsink node hnode hs).imp (fun hs => hs) ?_
    rintro ⟨pick, hmem, hlost⟩
    exact ⟨pick, hpicks pick hmem, hlost⟩

variable (rp) in
/-- **A session keeps the routes of a net**, unless it is stopped. -/
theorem retains_run (hrouter : rp.router = mazeRouter limit)
    (hd : rp.placement.device.Ready) (hn : rp.placement.netlist.net? net = some n)
    (hroots : rp.placement.rootsOfNet net = .ok roots) (hends : rp.placement.EndsInSinks net)
    (hsafe : rp.settings.repair.rollbackOnFailure = true ∨ rp.placement.SinksApart net)
    (h : rp.Retains net n roots es s) :
    (∃ e, (rp.run s).2 = .stopped e) ∨ rp.Retains net n roots es (rp.run s).1 := by
  refine run_rule (I := rp.Retains net n roots es)
    (E := fun x => (∃ e, x.2 = .stopped e) ∨ rp.Retains net n roots es x.1) ?_ ?_ ?_ ?_ s h
  · intro s c rest s' stop hs hnext _ _ hpick
    cases stop with
    | none => exact hs.of_pick hrouter hd hn hroots hends hsafe hnext hpick
    | some e => exact .inl ⟨e, rfl⟩
  · exact fun s hs _ => .inr hs
  · exact fun s c rest hs _ _ => .inr hs
  · exact fun s c rest hs _ _ _ => .inr hs

end Repairer

namespace Placement

variable {p : Placement} {s : Settings} {limit : Nat} {r : Routing} {net : NetId} {n : Net}
  {sink : PinId} {summary : SessionSummary}

/-- **A session that is not stopped keeps the sinks of a net routed**, but for
those that it gives up on with their route lost, if the sinks of the net are
dead ends, its route has no loose ends, and routes are put back or no two
sinks share a node. -/
theorem repair_keeps_routes (hd : p.device.Ready) (hr : p.IsForested r)
    (hn : p.netlist.net? net = some n) (hends : p.EndsInSinks net) (ha : p.IsAttached r net)
    (hsafe : s.repair.rollbackOnFailure = true ∨ p.SinksApart net)
    (hok : ((p.mazeRepairer s limit).repair () r).outcome = .ok summary)
    (hsink : sink ∈ n.sinks) (hrouted : p.isRouted r net sink = .ok true) :
    let result := (p.mazeRepairer s limit).repair () r
    p.isRouted result.routing net sink = .ok true ∨
      ∃ pick ∈ result.picks, pick.candidate.key = { net, sink } ∧ pick.LosesRoute := by
  intro result
  obtain ⟨node, route, roots, hnode, hroute, hroots, hs⟩ := isRouted_eq_ok_true.mp hrouted
  have hknows : p.device.Knows (r.of net) := (exists_routeOfNet_iff.mp ⟨route, hroute⟩).2
  rcases (p.mazeRepairer s limit).repair_cases () r with ⟨e, -, -, -, he⟩ | ⟨m, hm, heq⟩
  · rw [he] at hok
    cases hok
  · have hstart := Repairer.Tracks.start (p.mazeRepairer s limit) () hm (p.measure s r).events
    have hfirst : (p.mazeRepairer s limit).Retains net n roots (r.of net)
        ((p.mazeRepairer s limit).start () r m (p.measure s r).events) :=
      ⟨hstart, hr, ha roots hroots, hknows, fun _ _ _ _ h => .inl h⟩
    have hlast := Repairer.retains_run (p.mazeRepairer s limit) rfl hd hn hroots hends hsafe hfirst
    rcases hlast with ⟨e, he⟩ | hlast
    · rw [heq] at hok
      cases hok.symm.trans (Session.finish_eq_error.mpr he)
    · have hresult : result = _ := heq
      rcases hlast.supplies sink hsink node hnode hs with hs' | hlost
      · left
        obtain ⟨route', hroute'⟩ := exists_routeOfNet_iff.mpr ⟨⟨n, net_eq_ok.mpr hn⟩, hlast.knows⟩
        rw [hresult]
        exact isRouted_eq_ok_true.mpr ⟨node, route', roots, hnode, hroute', hroots, hs'⟩
      · right
        rw [hresult]
        exact hlost

/-- Two sinks that are dead ends are both routed after the first one has been
given a longer way. -/
theorem repairedShortWays_keeps_routes :
    twoSinks.EndsInSinks (.ofIndex 0) ∧ twoSinks.IsAttached shortWays (.ofIndex 0) ∧
      ∀ sink ∈ [(.ofIndex 1 : PinId), .ofIndex 2],
        twoSinks.isRouted repairedShortWays.routing (.ofIndex 0) sink = .ok true ∨
          ∃ pick ∈ repairedShortWays.picks,
            pick.candidate.key = { net := .ofIndex 0, sink } ∧ pick.LosesRoute := by
  have hends : twoSinks.EndsInSinks (.ofIndex 0) := by decide +kernel
  have ha : twoSinks.IsAttached shortWays (.ofIndex 0) :=
    descends_shortWays.isAttached rootsOfNet_twoSinks (by decide +kernel)
  have hrouted : ∀ sink ∈ [(.ofIndex 1 : PinId), .ofIndex 2],
      twoSinks.isRouted shortWays (.ofIndex 0) sink = .ok true := by decide +kernel
  exact ⟨hends, ha, fun sink hsink =>
    repair_keeps_routes ready_twoSinks isForested_shortWays rfl hends ha (.inl rfl)
      outcome_repairedShortWays hsink (hrouted sink hsink)⟩

/-! ### A sink on the way to another one

The device leads on from the node of the second sink to that of the first
one, and that is the way the first one is routed. There is a way round for
the first sink only. -/

/-- Two sinks, one on a way to the other. -/
def sinkOnTheWay : Placement :=
  sketch [⟨.sitePin, none⟩, ⟨.output, none⟩, ⟨.single, none⟩, ⟨.sitePin, none⟩, ⟨.sitePin, none⟩,
      ⟨.long, none⟩]
    [(0, 1), (1, 2), (2, 3), (3, 4), (1, 5), (5, 4)] [("X", 4), ("A", 3)]

/-- Both sinks routed on one way. -/
def oneWay : Routing := .sketch [0, 1, 2, 3]

/-- What repair makes of the one way. -/
def repairedOneWay : RepairResult Unit := (sinkOnTheWay.mazeRepairer {} 1000).repair () oneWay

/-- **A route may get lost without a word**: the first sink is given a longer
way, and the second one, which is never picked, is not routed any more. -/
theorem repairedOneWay_loses_route :
    sinkOnTheWay.device.Ready ∧ sinkOnTheWay.IsForested oneWay ∧
      repairedOneWay.outcome = .ok {
        repaired := 1, abandoned := [], processed := 1, attempts := 1, limitReached := false } ∧
      sinkOnTheWay.isRouted oneWay (.ofIndex 0) (.ofIndex 2) = .ok true ∧
      sinkOnTheWay.isRouted repairedOneWay.routing (.ofIndex 0) (.ofIndex 2) = .ok false ∧
      ∀ pick ∈ repairedOneWay.picks,
        pick.candidate.key ≠ { net := .ofIndex 0, sink := .ofIndex 2 } := by
  have hdescends : sinkOnTheWay.device.Descends (oneWay.of (.ofIndex 0)) := by decide +kernel
  refine ⟨Device.ready_reindex (by decide +kernel), isForested_sketch hdescends, ?_⟩
  rw [repairedOneWay, Repairer.repair_eq_insertionSort]
  decide +kernel

/-! ### A route with a loose end

The router starts from any node of the route, so it may start from one that
the driver does not lead to. What it finds then has no length, and the sink
is measured at the node it projects onto, which a stub of the route leads
to. -/

/-- A dead-end sink that may be reached from a loose end. -/
def besideLooseEnd : Placement :=
  sketch [⟨.sitePin, none⟩, ⟨.output, none⟩, ⟨.single, none⟩, ⟨.long, none⟩, ⟨.single, none⟩,
      ⟨.single, none⟩, ⟨.sitePin, some 50⟩, ⟨.sitePin, none⟩, ⟨.sitePin, none⟩, ⟨.sitePin, none⟩]
    [(6, 9), (3, 6), (0, 1), (1, 2), (2, 7), (7, 9), (1, 3), (4, 5), (5, 8), (8, 9)] [("A", 9)]

/-- The sink routed on its short way, with a stub to the long one and an edge
that the driver does not lead to. -/
def looseWay : Routing := .sketch [2, 3, 4, 5, 6, 7]

/-- What repair makes of the route with a loose end. -/
def repairedLooseWay : RepairResult Unit := (besideLooseEnd.mazeRepairer {} 1000).repair () looseWay

/-- **Routes with loose ends cannot be let in:** a dead-end sink counts as
repaired, and is not routed any more. -/
example :
    besideLooseEnd.device.Ready ∧ besideLooseEnd.IsForested looseWay ∧
      besideLooseEnd.EndsInSinks (.ofIndex 0) ∧
      repairedLooseWay.outcome = .ok {
        repaired := 1, abandoned := [], processed := 1, attempts := 1, limitReached := false } ∧
      besideLooseEnd.isRouted looseWay (.ofIndex 0) (.ofIndex 1) = .ok true ∧
      besideLooseEnd.isRouted repairedLooseWay.routing (.ofIndex 0) (.ofIndex 1) = .ok false := by
  have hdescends : besideLooseEnd.device.Descends (looseWay.of (.ofIndex 0)) := by decide +kernel
  refine ⟨Device.ready_reindex (by decide +kernel), isForested_sketch hdescends, ?_⟩
  rw [repairedLooseWay, Repairer.repair_eq_insertionSort]
  decide +kernel

/-! ### Two sinks at one node

Without rollback a sink that cannot be routed again takes the other one at
its node along. -/

/-- Two sinks at one dead end, with one way there. -/
def sharedEnd : Placement :=
  sketch [⟨.sitePin, none⟩, ⟨.output, none⟩, ⟨.single, none⟩, ⟨.single, none⟩, ⟨.sitePin, none⟩]
    [(0, 1), (1, 2), (2, 3), (3, 4)] [("A", 4), ("B", 4)]

/-- Both sinks routed on the one way. -/
def onlyWay : Routing := .sketch [0, 1, 2, 3]

/-- What repair without rollback makes of the one way. -/
def unrestoredOnlyWay : RepairResult Unit :=
  (sharedEnd.mazeRepairer { repair := { rollbackOnFailure := false } } 1000).repair () onlyWay

/-- **Without rollback sinks that share a node cannot be let in:** the second
one is never picked, and is not routed any more. -/
example :
    sharedEnd.device.Ready ∧ sharedEnd.IsForested onlyWay ∧
      sharedEnd.EndsInSinks (.ofIndex 0) ∧ sharedEnd.IsAttached onlyWay (.ofIndex 0) ∧
      unrestoredOnlyWay.outcome = .ok {
        repaired := 0
        abandoned := [{
          net := "n", driver := "S0/Q", sink := "S1/A", lengthBefore := 20, lengthAfter := none
          attempts := 1, reason := .routerFailed, restored := false }]
        processed := 1
        attempts := 1
        limitReached := false } ∧
      sharedEnd.isRouted onlyWay (.ofIndex 0) (.ofIndex 2) = .ok true ∧
      sharedEnd.isRouted unrestoredOnlyWay.routing (.ofIndex 0) (.ofIndex 2) = .ok false ∧
      ∀ pick ∈ unrestoredOnlyWay.picks,
        pick.candidate.key ≠ { net := .ofIndex 0, sink := .ofIndex 2 } := by
  have hdescends : sharedEnd.device.Descends (onlyWay.of (.ofIndex 0)) := by decide +kernel
  have hroots : sharedEnd.rootsOfNet (.ofIndex 0) =
      .ok (IdSet.ofList [.ofIndex 0, .ofIndex 1]) := by decide +kernel
  refine ⟨Device.ready_reindex (by decide +kernel), isForested_sketch hdescends,
    by decide +kernel, hdescends.isAttached hroots (by decide +kernel), ?_⟩
  rw [unrestoredOnlyWay, Repairer.repair_eq_insertionSort]
  decide +kernel

end Placement

end HoldMargin
