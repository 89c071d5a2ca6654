import HoldMargin.Proofs.Sketched
/-!
# The branch of a sink, edge by edge

On a forest the branch of a sink is the way up from its node, and the first
root, fork or loose end on it is where it stops (`Device.IsBranch`). An edge is
taken before the node it leaves is looked at, so the edge below the place where
the branch stops belongs to it. The way up meets no node twice, so the steps it
is given always suffice (`Route.isBranch_of_climb`).

With the branch taken out nothing enters the node of the sink, and what none of
its edges led to is reached from where it was reached before
(`Placement.unroute_takes_branch`).
-/

namespace HoldMargin

open Relation

namespace Device

variable {d : Device} {es : EdgeSet} {roots : NodeSet} {target v : NodeId} {i : EdgeId} {e : Edge}
  {ks : List EdgeId}

/-- Whether an edge is the only one of some edges to leave its node. -/
def LeavesAlone (d : Device) (es : EdgeSet) (i : EdgeId) (n : NodeId) : Prop :=
  ∀ j ∈ es, ∀ f, d.edge? j = some f → f.src = n → j = i

/-- **The branch of the sink at `target`**, edge by edge, the lowest first. -/
structure IsBranch (d : Device) (es : EdgeSet) (roots : NodeSet) (target : NodeId)
    (ks : List EdgeId) : Prop where
  committed : ∀ k ∈ ks, k ∈ es
  /-- The lowest edge enters the node of the sink. -/
  lowest : ∀ k ∈ ks.head?, ∃ e, d.edge? k = some e ∧ e.dst = target
  /-- Each edge enters the node that the edge below it leaves. -/
  linked : ks.IsChain fun j k => ∃ e f, d.edge? j = some e ∧ d.edge? k = some f ∧ f.dst = e.src
  /-- All edges but the highest leave nodes that are no roots and no forks. -/
  alone : ∀ k ∈ ks.dropLast, ∃ e, d.edge? k = some e ∧ e.src ∉ roots ∧ d.LeavesAlone es k e.src
  /-- The highest edge leaves a root, a fork, or a node that no edge enters. -/
  highest : ∀ k ∈ ks.getLast?, ∃ e, d.edge? k = some e ∧
    (e.src ∈ roots ∨ ¬ d.LeavesAlone es k e.src ∨ ∀ u, ¬ d.Leads es u e.src)
  /-- The branch is empty exactly if the node of the sink is a root or is not entered. -/
  nil_iff : ks = [] ↔ target ∈ roots ∨ ∀ u, ¬ d.Leads es u target

namespace IsBranch

theorem nil (h : target ∈ roots ∨ ∀ u, ¬ d.Leads es u target) : d.IsBranch es roots target [] where
  committed := by simp
  lowest := by simp
  linked := .nil
  alone := by simp
  highest := by simp
  nil_iff := by simpa using h

/-- A branch that stops at once. -/
theorem single (hi : i ∈ es) (he : d.edge? i = some e) (hroot : e.dst ∉ roots)
    (hstop : e.src ∈ roots ∨ ¬ d.LeavesAlone es i e.src) : d.IsBranch es roots e.dst [i] where
  committed := by simpa using hi
  lowest := by simpa using ⟨e, he, rfl⟩
  linked := .singleton i
  alone := by simp
  highest := by simpa using ⟨e, he, hstop.imp id .inl⟩
  nil_iff := by
    refine iff_of_false (List.cons_ne_nil _ _) ?_
    rintro (h | h)
    · exact hroot h
    · exact h e.src ⟨i, hi, e, he, rfl, rfl⟩

/-- A branch that goes on beyond an edge. -/
theorem cons (hi : i ∈ es) (he : d.edge? i = some e) (hroot : e.dst ∉ roots) (hsrc : e.src ∉ roots)
    (halone : d.LeavesAlone es i e.src) (h : d.IsBranch es roots e.src ks) :
    d.IsBranch es roots e.dst (i :: ks) := by
  have hnil : i :: ks = [] ↔ e.dst ∈ roots ∨ ∀ u, ¬ d.Leads es u e.dst := by
    refine iff_of_false (List.cons_ne_nil _ _) ?_
    rintro (hr | hno)
    · exact hroot hr
    · exact hno e.src ⟨i, hi, e, he, rfl, rfl⟩
  have hcommitted : ∀ k ∈ i :: ks, k ∈ es := by
    intro k hk
    rcases List.mem_cons.mp hk with rfl | hk
    · exact hi
    · exact h.committed k hk
  cases ks with
  | nil =>
    -- the branch above is empty at a node that is no root, so nothing enters that node
    have hno := (h.nil_iff.mp rfl).resolve_left hsrc
    exact ⟨hcommitted, by simpa using ⟨e, he, rfl⟩, .singleton i, by simp,
      by simpa using ⟨e, he, .inr (.inr hno)⟩, hnil⟩
  | cons k ks =>
    obtain ⟨f, hf, hfe⟩ := h.lowest k rfl
    refine ⟨hcommitted, by simpa using ⟨e, he, rfl⟩, .cons_cons ⟨e, f, he, hf, hfe⟩ h.linked, ?_, ?_,
      hnil⟩
    · intro j hj
      rw [List.dropLast_cons_cons] at hj
      rcases List.mem_cons.mp hj with rfl | hj
      · exact ⟨e, he, hsrc, halone⟩
      · exact h.alone j hj
    · rw [List.getLast?_cons_cons]
      exact h.highest

end IsBranch

end Device

namespace Route

variable {r : Route} {d : Device} {es : EdgeSet} {roots : NodeSet} {used : List NodeId}
  {node n v : NodeId} {ks : List EdgeId} {steps : Nat}

/-- No node comes twice among those that a node leads to. -/
theorem nodup_successors (hends : (r.arcs.map Arc.ends).Nodup) : (r.successors n).Nodup := by
  refine List.pairwise_map.mpr (((List.pairwise_map.mp hends).filter _).imp_of_mem ?_)
  intro a b ha hb hne hdst
  have hsrc : a.src = b.src := by
    rw [of_decide_eq_true (List.mem_filter.mp ha).2, of_decide_eq_true (List.mem_filter.mp hb).2]
  exact hne (Prod.ext hsrc hdst)

/-- A node that forks leads to more than one node. -/
theorem exists_ne_of_fork (hends : (r.arcs.map Arc.ends).Nodup) (h : 1 < (r.successors n).length)
    (v : NodeId) : ∃ u, u ≠ v ∧ r.Leads n u := by
  have hnodup := nodup_successors (n := n) hends
  match hs : r.successors n with
  | [] | [_] => simp [hs] at h
  | a :: b :: _ =>
    rw [hs] at hnodup
    have hab : a ≠ b := fun heq => (List.nodup_cons.mp hnodup).1 (heq ▸ List.mem_cons_self)
    by_cases hav : a = v
    · exact ⟨b, fun hbv => hab (hav.trans hbv.symm), mem_successors.mp (by simp [hs])⟩
    · exact ⟨a, hav, mem_successors.mp (by simp [hs])⟩

/-- On a forest an arc leaves its node alone exactly if the node does not fork. -/
theorem Draws.leavesAlone_iff (hd : r.Draws d es) (hends : (r.arcs.map Arc.ends).Nodup)
    (hf : d.IsForest es) {i : EdgeId} {e : Edge} (hi : i ∈ es) (he : d.edge? i = some e) :
    d.LeavesAlone es i e.src ↔ (r.successors e.src).length ≤ 1 := by
  constructor
  · intro halone
    by_contra hfork
    obtain ⟨u, hne, hl⟩ := exists_ne_of_fork hends (Nat.lt_of_not_le hfork) e.dst
    obtain ⟨j, hj, f, hfj, hsrc, rfl⟩ := hd.leads_iff.mp hl
    obtain rfl := halone j hj f hfj hsrc
    rw [he, Option.some.injEq] at hfj
    exact hne (hfj ▸ rfl)
  · intro hle j hj f hfj hsrc
    -- both lead to the only node after this one, and a forest enters that only once
    have hl : r.Leads e.src e.dst := hd.leads_iff.mpr ⟨i, hi, e, he, rfl, rfl⟩
    have hl' : r.Leads e.src f.dst := hd.leads_iff.mpr ⟨j, hj, f, hfj, hsrc, rfl⟩
    exact hf.entered_once j hj i hi f e hfj he (eq_of_length_successors_le hle hl' hl)

/-- **The way up from a node is the branch of the sink there**, given more steps than
there are arcs left to go up. -/
theorem isBranch_of_climb (hd : r.Draws d es) (hends : (r.arcs.map Arc.ends).Nodup)
    (hf : d.IsForest es) (hnew : node ∉ used) (hsteps : r.unseenArcs used < steps)
    (h : r.climb roots (node :: used) node steps = .ok ks) : d.IsBranch es roots node ks := by
  induction steps generalizing used node ks with
  | zero => exact absurd hsteps (Nat.not_lt_zero _)
  | succ steps ih =>
    rw [climb] at h
    split at h
    · rename_i hroot
      cases h
      exact .nil (.inl hroot)
    rename_i hroot
    split at h
    · rename_i hno
      cases h
      rw [arrival?_eq_none, hd.leads_eq] at hno
      exact .nil (.inr hno)
    rename_i a ha
    obtain ⟨hmem, rfl⟩ := arrival?_eq_some ha
    obtain ⟨hi, e, he, hsrc, hdst⟩ := hd.edge a hmem
    rw [← hsrc, ← hdst] at h
    rw [← hdst] at hroot hnew ⊢
    split at h
    · cases h
    rename_i hfresh
    split at h
    · rename_i hstop
      cases h
      refine .single hi he hroot (hstop.symm.imp id fun hfork halone => ?_)
      exact absurd ((hd.leavesAlone_iff hends hf hi he).mp halone) (Nat.not_le_of_gt hfork)
    · rename_i hgo
      rw [not_or] at hgo
      have hl : r.Leads e.src e.dst := hd.leads_iff.mpr ⟨a.edge, hi, e, he, rfl, rfl⟩
      have hfewer := unseenArcs_lt (fun _ => List.mem_cons_of_mem e.dst) hl hnew List.mem_cons_self
      cases hup : r.climb roots (e.src :: e.dst :: used) e.src steps with
      | error n => rw [hup] at h; cases h
      | ok up =>
        rw [hup] at h
        cases h
        have halone := (hd.leavesAlone_iff hends hf hi he).mpr (Nat.le_of_not_lt hgo.1)
        exact .cons hi he hroot hgo.2 halone (ih hfresh (by omega) hup)

end Route

namespace Device

variable {d : Device} {es : EdgeSet} {roots : NodeSet} {target u v : NodeId} {ks : List EdgeId}

/-- **What none of the edges taken out led to is led to as before.** -/
theorem reflTransGen_diff_iff
    (hfree : ∀ k ∈ ks, ∀ e, d.edge? k = some e → ¬ ReflTransGen (d.Leads es) e.dst v) :
    ReflTransGen (d.Leads (es.diff ks)) u v ↔ ReflTransGen (d.Leads es) u v := by
  constructor
  · intro h
    refine ReflTransGen.mono (fun _ _ hl => hl.mono fun i hi => ?_) _ _ h
    exact (IdSet.mem_diff.mp hi).1
  · intro h
    induction h using ReflTransGen.head_induction_on with
    | refl => exact .refl
    | head hl hto ih =>
      obtain ⟨i, hi, e, he, hsrc, rfl⟩ := hl
      have hkept : i ∈ es.diff ks :=
        IdSet.mem_diff.mpr ⟨hi, fun hk => hfree i hk e he hto⟩
      exact .head ⟨i, hkept, e, he, hsrc, rfl⟩ ih

end Device

namespace Placement

variable {p : Placement} {r : Routing} {net : NetId} {sink : PinId} {target : NodeId}

/-- No pair of ends comes twice in the route of a net. -/
theorem nodup_ends_of_routeOfNet {route : Route} (h : p.routeOfNet r net = .ok route) :
    (route.arcs.map Arc.ends).Nodup := by
  obtain ⟨n, -, h⟩ := bind_eq_ok.mp h
  obtain ⟨hops, -, h⟩ := bind_eq_ok.mp h
  cases h
  exact Route.nodup_ends_ofArcs hops

/-- **On a forest every sink has its branch.** -/
theorem exists_branch {route : Route} {roots : NodeSet}
    (htarget : p.pinNode sink = .ok target) (hroute : p.routeOfNet r net = .ok route)
    (hroots : p.rootsOfNet net = .ok roots) (hf : p.device.IsForest (r.of net)) :
    ∃ ks, p.branch r net sink = .ok ks ∧ p.device.IsBranch (r.of net) roots target ks := by
  have hd := draws_of_routeOfNet hroute
  cases hb : route.branch roots target with
  | error n =>
    have hcycle := Route.transGen_of_climb hb fun m hm => by
      rw [List.mem_singleton.mp hm]
    rw [hd.leads_eq] at hcycle
    exact absurd hcycle (hf.acyclic n)
  | ok ks =>
    have hsteps : route.unseenArcs [] < route.arcs.length + 1 :=
      Nat.lt_succ_of_le List.countP_le_length
    refine ⟨ks, ?_, Route.isBranch_of_climb hd (nodup_ends_of_routeOfNet hroute) hf
      List.not_mem_nil hsteps hb⟩
    refine bind_eq_ok.mpr ⟨target, htarget, bind_eq_ok.mpr ⟨route, hroute, bind_eq_ok.mpr
      ⟨roots, hroots, ?_⟩⟩⟩
    rw [hb]

/-- With its branch taken out a sink is not routed, unless the branch is empty. -/
theorem isRouted_diff_branch {roots : NodeSet} {ks : List EdgeId}
    (htarget : p.pinNode sink = .ok target) (hroute : ∃ route, p.routeOfNet r net = .ok route)
    (hroots : p.rootsOfNet net = .ok roots) (hf : p.device.IsForest (r.of net))
    (hks : p.branch r net sink = .ok ks) (hb : p.device.IsBranch (r.of net) roots target ks)
    (hne : ks ≠ []) : p.isRouted (r.set net ((r.of net).diff ks)) net sink = .ok false := by
  obtain ⟨target', roots', htarget', hroots', htrims⟩ := trims_of_branch hks hf
  rw [htarget, Except.ok.injEq] at htarget'
  rw [hroots, Except.ok.injEq] at hroots'
  subst htarget' hroots'
  have hroot : target ∉ roots := fun h => hne (hb.nil_iff.mpr (.inl h))
  obtain ⟨hnet, hedges⟩ := exists_routeOfNet_iff.mp hroute
  obtain ⟨route', hroute'⟩ : ∃ route', p.routeOfNet (r.set net ((r.of net).diff ks)) net =
      .ok route' := by
    refine exists_routeOfNet_iff.mpr ⟨hnet, fun i hi => ?_⟩
    rw [Routing.of_set_self, IdSet.mem_diff] at hi
    exact hedges i hi.1
  have hanswer := isRouted_of_known htarget hroute' hroots
  cases hreaches : route'.reaches roots.toList target with
  | false => rw [hanswer, hreaches]
  | true =>
    rw [hreaches] at hanswer
    obtain ⟨n, -, roots'', hn, -, hroots'', root, hmem, hto⟩ := isRouted_eq_ok_true.mp hanswer
    rw [htarget, Except.ok.injEq] at hn
    rw [hroots, Except.ok.injEq] at hroots''
    subst hn hroots''
    rw [Routing.of_set_self] at hto
    -- nothing enters the node of the sink any more, and it is no root
    rcases ReflTransGen.cases_tail hto with rfl | ⟨u, -, hl⟩
    · exact absurd hmem hroot
    · exact absurd hl (htrims.bare.resolve_left hroot u)

/-- **The branch of a sink is found and taken out.** If the route of a net is a forest of
known edges and the pins of its drivers are there, then every sink has its branch, and
what is taken out with the sink are the edges of the branch. If there are any, the sink
is not routed any more. A node that none of them led to is led to from the same nodes as
before, so from the same roots. -/
theorem unroute_takes_branch {n : Net} (hnet : p.netlist.net? net = some n)
    (hdrivers : ∀ driver ∈ n.drivers, ∃ pin, p.netlist.pin? driver = some pin)
    (hf : p.device.IsForest (r.of net)) (hknown : p.device.Knows (r.of net))
    (htarget : p.pinNode sink = .ok target) :
    ∃ roots ks after, p.rootsOfNet net = .ok roots ∧
      p.branch r net sink = .ok ks ∧ p.device.IsBranch (r.of net) roots target ks ∧
      p.unroute r net sink = .ok (ks, after) ∧
      (∀ i, i ∈ after.of net ↔ i ∈ r.of net ∧ i ∉ ks) ∧
      (∀ other, other ≠ net → after.of other = r.of other) ∧
      (ks ≠ [] → p.isRouted after net sink = .ok false) ∧
      ∀ v, (∀ k ∈ ks, ∀ e, p.device.edge? k = some e →
          ¬ ReflTransGen (p.device.Leads (r.of net)) e.dst v) →
        ∀ u, ReflTransGen (p.device.Leads (after.of net)) u v ↔
          ReflTransGen (p.device.Leads (r.of net)) u v := by
  obtain ⟨roots, hroots⟩ := exists_rootsOfNet_iff.mpr ⟨n, hnet, hdrivers⟩
  obtain ⟨route, hroute⟩ : ∃ route, p.routeOfNet r net = .ok route :=
    exists_routeOfNet_iff.mpr ⟨⟨n, net_eq_ok.mpr hnet⟩, hknown⟩
  obtain ⟨ks, hks, hb⟩ := exists_branch htarget hroute hroots hf
  refine ⟨roots, ks, r.set net ((r.of net).diff ks), hroots, hks, hb,
    bind_eq_ok.mpr ⟨ks, hks, rfl⟩, fun i => ?_, fun other hne => ?_,
    isRouted_diff_branch htarget ⟨route, hroute⟩ hroots hf hks hb, fun v hfree u => ?_⟩
  · rw [Routing.of_set_self, IdSet.mem_diff]
  · rw [Routing.of_set, if_neg hne]
  · rw [Routing.of_set_self]
    exact Device.reflTransGen_diff_iff hfree

/-- The branch of the first sink on the short ways goes up to the output of the driver,
where the way to the second sink forks off. The first sink loses its route, and the
second one is led to from where it was before. -/
theorem shortWays_branch :
    ∃ ks after, ks = [.ofIndex 4, .ofIndex 1] ∧
      twoSinks.unroute shortWays (.ofIndex 0) (.ofIndex 1) = .ok (ks, after) ∧
      twoSinks.isRouted after (.ofIndex 0) (.ofIndex 1) = .ok false ∧
      ∀ u, ReflTransGen (twoSinks.device.Leads (after.of (.ofIndex 0))) u (.ofIndex 6) ↔
        ReflTransGen (twoSinks.device.Leads (shortWays.of (.ofIndex 0))) u (.ofIndex 6) := by
  have htarget : twoSinks.pinNode (.ofIndex 1) = .ok (.ofIndex 3) := by decide +kernel
  have hdrivers : ∀ driver ∈ twoSinks.netlist.nets[0].drivers,
      (twoSinks.netlist.pin? driver).isSome := by decide +kernel
  -- from the two nodes of the branch the route does not come to the second sink
  have hread : (twoSinks.routeOfNet shortWays (.ofIndex 0)).map
      (·.reaches [.ofIndex 3, .ofIndex 2] (.ofIndex 6)) = .ok false := by decide +kernel
  obtain ⟨route, hroute⟩ : ∃ route, twoSinks.routeOfNet shortWays (.ofIndex 0) = .ok route := by
    cases h : twoSinks.routeOfNet shortWays (.ofIndex 0) with
    | ok route => exact ⟨route, rfl⟩
    | error e =>
      rw [h] at hread
      cases hread
  rw [hroute, Except.map, Except.ok.injEq] at hread
  obtain ⟨roots, ks, after, -, hks, -, hunroute, -, -, hlost, hsame⟩ :=
    unroute_takes_branch (p := twoSinks) (n := twoSinks.netlist.nets[0]) rfl
      (fun driver h => Option.isSome_iff_exists.mp (hdrivers driver h))
      descends_shortWays.isForest (exists_routeOfNet_iff.mp ⟨route, hroute⟩).2 htarget
  have hbranch : twoSinks.branch shortWays (.ofIndex 0) (.ofIndex 1) =
      .ok [.ofIndex 4, .ofIndex 1] := by decide +kernel
  rw [hbranch, Except.ok.injEq] at hks
  subst hks
  refine ⟨_, after, rfl, hunroute, hlost (by simp), hsame _ fun k hk e he hto => ?_⟩
  have hends : ∀ k ∈ ([.ofIndex 4, .ofIndex 1] : List EdgeId), ∀ e ∈ twoSinks.device.edge? k,
      e.dst ∈ ([.ofIndex 3, .ofIndex 2] : List NodeId) := by decide +kernel
  rw [← (draws_of_routeOfNet hroute).leads_eq] at hto
  exact Bool.false_ne_true
    (hread.symm.trans (Route.reaches_iff.mpr ⟨e.dst, hends k hk e he, hto⟩))

end Placement

end HoldMargin
