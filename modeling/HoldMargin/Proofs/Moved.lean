import HoldMargin.Proofs.Grown
import HoldMargin.Proofs.Loops
import HoldMargin.Proofs.Trimmed
/-!
# What a round does to a route

With the maze router a round trims the route of a net with one of its sinks
and may then extend what is left (`Round.Moves`). The nodes to be avoided
never include one that is kept, so the node of the sink is not among them,
and every round that the router answers is of this form
(`Repairer.Answered.moves`). That a route is a forest outlasts both halves
of a round.
-/

namespace HoldMargin

/-- **What a round does to the route of a net** that has a sink at `target`:
the edges `branch` are taken out, and then `path` is committed. -/
structure Round.Moves (rd : Round) (p : Placement) (net : NetId) (target : NodeId)
    (roots : NodeSet) (branch path : List EdgeId) : Prop where
  trims : p.device.Trims (rd.before.of net) roots target branch
  cut_of : rd.cut.of net = (rd.before.of net).diff branch
  after_of : rd.after.of net = (rd.cut.of net).union path
  path : path = [] ∨ p.device.Serves (rd.cut.of net) roots path target
  cut_other : ∀ other, other ≠ net → rd.cut.of other = rd.before.of other
  after_other : ∀ other, other ≠ net → rd.after.of other = rd.before.of other

/-- A forest that edges serving a node are added to stays a forest. -/
theorem Device.IsForest.of_serves {d : Device} {es : EdgeSet} {roots : NodeSet} {target : NodeId}
    {path : List EdgeId} (hf : d.IsForest es) (h : d.Serves es roots path target) :
    d.IsForest (es.union path) := by
  rcases h with ⟨rfl, -⟩ | ⟨source, hext⟩
  · exact hf
  · exact hf.of_grows hext.grows

namespace Round.Moves

variable {rd : Round} {p : Placement} {net : NetId} {target : NodeId} {roots : NodeSet}
  {branch path : List EdgeId}

theorem isForest_cut (h : rd.Moves p net target roots branch path)
    (hf : p.device.IsForest (rd.before.of net)) : p.device.IsForest (rd.cut.of net) := by
  rw [h.cut_of]
  exact hf.of_subset fun i hi => (IdSet.mem_diff.mp hi).1

/-- **A round leaves a forest behind.** -/
theorem isForest_after (h : rd.Moves p net target roots branch path)
    (hf : p.device.IsForest (rd.before.of net)) : p.device.IsForest (rd.after.of net) := by
  rw [h.after_of]
  rcases h.path with rfl | hpath
  · exact h.isForest_cut hf
  · exact (h.isForest_cut hf).of_serves hpath

end Round.Moves

namespace Placement

/-- The repairer with the maze router, which gives up on a sink after `limit`
expansions. -/
def mazeRepairer (p : Placement) (s : Settings) (limit : Nat) : Repairer Unit where
  placement := p
  settings := s
  router := mazeRouter limit

variable {p : Placement} {c : Ranked} {kept : NodeSet}

/-- The nodes that are kept include that of the sink. -/
theorem keptNodes_eq_ok (h : p.keptNodes c = .ok kept) :
    ∃ roots target, p.rootsOfNet c.net = .ok roots ∧ p.pinNode c.sink = .ok target ∧
      target ∈ kept := by
  obtain ⟨roots, hroots, h⟩ := bind_eq_ok.mp h
  obtain ⟨target, htarget, h⟩ := bind_eq_ok.mp h
  obtain ⟨sink, -, h⟩ := bind_eq_ok.mp h
  obtain ⟨driver, -, h⟩ := bind_eq_ok.mp h
  cases h
  refine ⟨roots, target, hroots, htarget, ?_⟩
  rw [IdSet.mem_union, IdSet.mem_insert]
  exact .inl (.inl rfl)

/-- The nodes that are kept include the roots of the net. -/
theorem mem_keptNodes_of_mem_roots (h : p.keptNodes c = .ok kept) {roots : NodeSet}
    (hroots : p.rootsOfNet c.net = .ok roots) {n : NodeId} (hn : n ∈ roots) : n ∈ kept := by
  obtain ⟨roots', hroots', h⟩ := bind_eq_ok.mp h
  obtain ⟨target, -, h⟩ := bind_eq_ok.mp h
  obtain ⟨sink, -, h⟩ := bind_eq_ok.mp h
  obtain ⟨driver, -, h⟩ := bind_eq_ok.mp h
  rw [hroots, Except.ok.injEq] at hroots'
  subst hroots'
  cases h
  rw [IdSet.mem_union, IdSet.mem_insert]
  exact .inl (.inr hn)

/-- **The nodes that edges give to avoid** are those they enter, as far as these may be
avoided. -/
theorem mem_nodesToAvoid_iff {net : NetId} {edges : List EdgeId} {nodes : List NodeId}
    {n : NodeId} (h : p.nodesToAvoid net kept edges = .ok nodes) :
    n ∈ nodes ↔ p.isAvoidable kept n = true ∧ n ∈ p.device.entered edges := by
  obtain ⟨hops, hhops, h⟩ := bind_eq_ok.mp h
  cases h
  rw [List.mem_filter, List.mem_map, and_comm, Device.mem_entered]
  refine and_congr_right fun _ => ?_
  constructor
  · rintro ⟨a, ha, rfl⟩
    obtain ⟨i, hi, hop⟩ := exists_source_of_mem hhops ha
    obtain ⟨e, he, rfl⟩ := hopOf_eq_ok.mp hop
    exact ⟨i, hi, e, he, rfl⟩
  · rintro ⟨i, hi, e, he, rfl⟩
    obtain ⟨a, ha, hop⟩ := exists_result_of_mem hhops hi
    obtain ⟨e', he', rfl⟩ := hopOf_eq_ok.mp hop
    rw [he] at he'
    cases he'
    exact ⟨_, ha, rfl⟩

/-- Nodes to be avoided are not kept. -/
theorem not_kept_of_nodesToAvoid {net : NetId} {edges : List EdgeId} {nodes : List NodeId}
    (h : p.nodesToAvoid net kept edges = .ok nodes) : ∀ n ∈ nodes, n ∉ kept := by
  intro n hn
  obtain ⟨hav, -⟩ := (mem_nodesToAvoid_iff h).mp hn
  simp only [isAvoidable, Bool.and_eq_true, decide_eq_true_eq] at hav
  exact hav.2

end Placement

namespace Repairer

variable {rp : Repairer Unit} {limit : Nat} {c : Ranked} {kept roots : NodeSet} {target : NodeId}
  {pg pg' : Progress Unit} {branch : List EdgeId} {nodes : List NodeId} {rd : Round}
  {reply : RouteReply Unit}

/-- What is to be avoided stays apart from what is kept. -/
theorem Answered.not_kept (h : rp.Answered c kept pg pg' branch nodes rd reply)
    (havoid : ∀ n ∈ pg.avoid, n ∉ kept) : ∀ n ∈ pg'.avoid, n ∉ kept := by
  obtain ⟨_, -, hplan⟩ := bind_eq_ok.mp h.plan
  obtain ⟨nodes', hnodes, hplan⟩ := bind_eq_ok.mp hplan
  cases hplan
  intro n hn
  rw [h.avoid, IdSet.mem_union] at hn
  rcases hn with hn | hn
  · exact havoid n hn
  · exact Placement.not_kept_of_nodesToAvoid hnodes n hn

/-- **A round moves the route.** Where the router fails nothing is committed,
and where it is content the sink is served. -/
theorem Answered.moves (h : rp.Answered c kept pg pg' branch nodes rd reply)
    (hrouter : rp.router = mazeRouter limit) (hd : rp.placement.device.Ready)
    (hf : rp.placement.device.IsForest (pg.routing.of c.net))
    (hroots : rp.placement.rootsOfNet c.net = .ok roots)
    (htarget : rp.placement.pinNode c.sink = .ok target) (hkept : target ∈ kept)
    (havoid : ∀ n ∈ pg.avoid, n ∉ kept) :
    ∃ path, rd.Moves rp.placement c.net target roots branch path ∧
      ((∃ e, reply.outcome = .error e) ∧ path = [] ∨
        reply.outcome = .ok () ∧
          rp.placement.device.Serves (rd.cut.of c.net) roots path target) := by
  obtain ⟨branch', hbranch, hplan⟩ := bind_eq_ok.mp h.plan
  obtain ⟨_, -, hplan⟩ := bind_eq_ok.mp hplan
  cases hplan
  obtain ⟨target', roots', htarget', hroots', htrims⟩ := Placement.trims_of_branch hbranch hf
  rw [htarget, Except.ok.injEq] at htarget'
  rw [hroots, Except.ok.injEq] at hroots'
  subst htarget'
  subst hroots'
  have hcut : rd.cut.of c.net = (rd.before.of c.net).diff branch := by
    rw [h.cut, h.before, Routing.of_set_self]
  have hcut' : ∀ other, other ≠ c.net → rd.cut.of other = rd.before.of other := by
    intro other hother
    rw [h.cut, h.before, Routing.of_set, if_neg hother]
  -- the node of the sink is kept, so the router is free to enter it
  have htarget_new : target ∉ pg'.avoid := fun hn => h.not_kept havoid target hn hkept
  have hmaze := mazeRouter_route limit rd.cut hd htarget hroots htarget_new
  rw [← hrouter, ← h.asked] at hmaze
  rw [← h.before] at htrims
  rcases hmaze with ⟨⟨e, he⟩, hrouting⟩ | ⟨hok, path, hrouting, hserves⟩
  · refine ⟨[], ⟨htrims, hcut, ?_, .inl rfl, hcut', ?_⟩, .inl ⟨⟨e, he⟩, rfl⟩⟩
    · rw [h.after, hrouting]
      rfl
    · rw [h.after, hrouting]
      exact hcut'
  · refine ⟨path, ⟨htrims, hcut, ?_, .inr hserves, hcut', ?_⟩, .inr ⟨hok, hserves⟩⟩
    · rw [h.after, hrouting, Routing.of_set_self]
    · intro other hother
      rw [h.after, hrouting, Routing.of_set, if_neg hother, hcut' other hother]

end Repairer

end HoldMargin
