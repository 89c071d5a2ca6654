import HoldMargin.Proofs.Exhausted
/-!
# What guides a search, and where it misleads

Paths are followed up in the order of what they promise to cost
(`Search.Ordered`), so when a path to the target comes up, no open path promises
less. Any other path to the target has a node that is open, and what it promises
there is a bound on the cost of the path that is found
(`Occupancy.cost_le_of_search`). A promise is kept where no edge passes over more
tiles than it costs to enter its end (`Device.Paced`), so among such paths the one
found is the cheapest. Distances that wrap round promise less than there is, which
does no harm (`Device.tileDistance?_le_tilesBetween`). But lengths of nodes and
places of tiles are not tied to each other: a path with a single far edge may be
cheaper than it promises, and then it may be missed
(`Occupancy.throughHub_not_cheapest`).
-/

namespace HoldMargin

variable {d : Device} {q : PathQuery} {is : List EdgeId}

/-! ## Tile distances along a path -/

namespace Device

variable {n m target : NodeId}

theorem toNat_gap (a b : UInt32) :
    (gap a b).toNat = (a.toNat - b.toNat) + (b.toNat - a.toNat) := by
  unfold gap
  split
  · rename_i hlt
    have hlt : a.toNat < b.toNat := UInt32.lt_iff_toNat_lt.mp hlt
    rw [UInt32.toNat_sub_of_le _ _ (UInt32.le_iff_toNat_le.mpr hlt.le)]
    omega
  · rename_i hge
    have hge : b.toNat ≤ a.toNat := Nat.le_of_not_lt fun hlt => hge (UInt32.lt_iff_toNat_lt.mpr hlt)
    rw [UInt32.toNat_sub_of_le _ _ (UInt32.le_iff_toNat_le.mpr hge)]
    omega

theorem gap_le (a b c : UInt32) : (gap a c).toNat ≤ (gap a b).toNat + (gap b c).toNat := by
  simp only [toNat_gap]
  omega

/-- The number of tiles between the tiles of two nodes, however many these are. -/
def tilesBetween (d : Device) (a b : NodeId) : Nat :=
  match d.tileOf? a, d.tileOf? b with
  | some s, some t => (gap s.col t.col).toNat + (gap s.row t.row).toNat
  | _, _ => 0

/-- **A path that is paced**: no edge of it passes over more tiles than it costs to enter its
end. -/
def Paced (d : Device) (is : List EdgeId) : Prop :=
  ∀ i ∈ is, ∀ e ∈ d.edge? i, d.tilesBetween e.src e.dst ≤ d.entryCost e.dst

/-- A distance that wraps round only gets less. -/
theorem tileDistance?_le_tilesBetween (d : Device) (a b : NodeId) :
    (d.tileDistance? a b).getD 0 ≤ d.tilesBetween a b := by
  unfold tileDistance? tilesBetween
  cases d.tileOf? a with
  | none => exact Nat.zero_le _
  | some s =>
    cases d.tileOf? b with
    | none => exact Nat.zero_le _
    | some t =>
      show (gap s.col t.col + gap s.row t.row).toNat ≤ _
      rw [UInt32.toNat_add]
      exact Nat.mod_le _ _

theorem tilesBetween_self (d : Device) (n : NodeId) : d.tilesBetween n n = 0 := by
  unfold tilesBetween
  cases d.tileOf? n <;> simp [toNat_gap]

/-- The nodes of a fit device are on its tiles. -/
theorem Ready.exists_tileOf? (hd : d.Ready) (hn : Names Node.id d.nodes n) :
    ∃ t, d.tileOf? n = some t := by
  obtain ⟨node, hnode, rfl⟩ := hn
  obtain ⟨t, ht, heq⟩ := hd.coherent.tileOfNode node hnode
  refine ⟨t, ?_⟩
  rw [tileOf?, node?, hd.coherent.nodesInPlace.getElem?_id hnode, Option.bind_some, tile?, ← heq,
    hd.coherent.tilesInPlace.getElem?_id ht]

/-- **No way round is shorter**, counted in tiles. -/
theorem tilesBetween_le {t : Tile} (hm : d.tileOf? m = some t) :
    d.tilesBetween n target ≤ d.tilesBetween n m + d.tilesBetween m target := by
  unfold tilesBetween
  rw [hm]
  cases d.tileOf? n with
  | none => exact Nat.zero_le _
  | some s =>
    cases d.tileOf? target with
    | none => exact Nat.zero_le _
    | some u =>
      have hcol := gap_le s.col t.col u.col
      have hrow := gap_le s.row t.row u.row
      dsimp only
      omega

/-- **The number of tiles can be trusted** on a paced path. -/
theorem IsPath.tilesBetween_le_pathCost (hd : d.Ready) (hp : d.IsPath n is target)
    (hpaced : d.Paced is) : d.tilesBetween n target ≤ d.pathCost is := by
  induction hp with
  | nil n => rw [tilesBetween_self]; exact Nat.zero_le _
  | @cons n target i e is he hs _ ih =>
    subst hs
    have hends := hd.coherent.endsOfEdge e (Array.mem_of_getElem? he)
    obtain ⟨t, ht⟩ := hd.exists_tileOf? hends.2
    have hfirst := hpaced i List.mem_cons_self e he
    have hrest := ih fun j hj => hpaced j (List.mem_cons_of_mem _ hj)
    have hround : d.tilesBetween e.src target ≤ _ := tilesBetween_le ht
    rw [pathCost_cons he]
    omega

end Device

namespace Search

variable {s : Search} {o : OpenPath} {last : Option Arc} {a : Arc} {cost : Nat}

/-! ## The order of the open paths -/

/-- **The open paths, the most promising first**: each promises its own cost and
the tile distance to the target. -/
structure Ordered (d : Device) (q : PathQuery) (s : Search) : Prop where
  ascending : s.frontier.Pairwise fun a b => a.estimate ≤ b.estimate
  estimate : ∀ o ∈ s.frontier, o.estimate = o.cost + q.distance d o.node

theorem pairwise_enqueue {os : List OpenPath}
    (h : os.Pairwise fun a b => a.estimate ≤ b.estimate) :
    (enqueue o os).Pairwise fun a b => a.estimate ≤ b.estimate := by
  induction os with
  | nil => exact List.pairwise_singleton _ _
  | cons v vs ih =>
    obtain ⟨hv, hvs⟩ := List.pairwise_cons.mp h
    rw [enqueue]
    split
    · rename_i hprecedes
      have hov : o.estimate ≤ v.estimate := by
        simp only [OpenPath.precedes, Bool.or_eq_true, Bool.and_eq_true, decide_eq_true_eq]
          at hprecedes
        omega
      refine List.pairwise_cons.mpr ⟨fun x hx => ?_, h⟩
      rcases List.mem_cons.mp hx with rfl | hx
      · exact hov
      · exact Nat.le_trans hov (hv x hx)
    · rename_i hprecedes
      have hvo : v.estimate ≤ o.estimate := by
        simp only [OpenPath.precedes, Bool.or_eq_true, decide_eq_true_eq, not_or] at hprecedes
        omega
      refine List.pairwise_cons.mpr ⟨fun x hx => ?_, ih hvs⟩
      rcases mem_enqueue.mp hx with rfl | hx
      · exact hvo
      · exact hv x hx

namespace Ordered

theorem label (h : s.Ordered d q) (n : NodeId) : (s.label (q.openPath d n cost) last).Ordered d q := by
  refine ⟨pairwise_enqueue h.ascending, fun x hx => ?_⟩
  rcases mem_enqueue.mp hx with rfl | hx
  · rfl
  · exact h.estimate x hx

/-- **A follow-up keeps the order.** -/
theorem step (h : s.Ordered d q) {rest : List OpenPath}
    (hdrop : s.frontier.dropWhile s.isStale = o :: rest) :
    (followUp d q { s with frontier := rest } o).Ordered d q := by
  have hsub := sublist_of_dropWhile hdrop
  have hrest : Ordered d q { s with frontier := rest } :=
    ⟨(h.ascending.sublist hsub).tail, fun x hx =>
      h.estimate x (hsub.subset (List.mem_cons_of_mem _ hx))⟩
  exact hops_rule hrest fun _ a _ _ _ h => h.label a.dst

/-- What is followed up next promises to cost no more than any other path that counts. -/
theorem cost_le (h : s.Ordered d q) {rest : List OpenPath} {x : OpenPath}
    (hdrop : s.frontier.dropWhile s.isStale = o :: rest)
    (hx : x ∈ s.frontier.dropWhile s.isStale) : o.cost ≤ x.cost + q.distance d x.node := by
  have hsub := sublist_of_dropWhile hdrop
  have ho := h.estimate o (hsub.subset List.mem_cons_self)
  rw [hdrop] at hx
  have hxe := h.estimate x (hsub.subset hx)
  rcases List.mem_cons.mp hx with rfl | hx
  · omega
  · have hle := (List.pairwise_cons.mp (h.ascending.sublist hsub)).1 x hx
    omega

end Ordered

theorem ordered_start : (start d q).Ordered d q :=
  List.foldlRecOn q.sources.toList _ ⟨.nil, nofun⟩ fun _ h n _ => h.label n

end Search

/-- **What is found costs no more than any admitted path promises** at some node on it. -/
theorem PathQuery.cost_le_promise (hd : d.Ready) {budget : Nat} {path : List EdgeId}
    (h : q.search d budget = .ok path) {n : NodeId} (hn : n ∈ q.sources) (hp : q.Admits d n is) :
    ∃ before after m, is = before ++ after ∧ d.IsPath n before m ∧ d.IsPath m after q.target ∧
      d.pathCost path ≤ d.pathCost before + q.distance d m := by
  obtain ⟨s, o, rest, ⟨hlabelled, hpursued, hordered⟩, hdrop, htarget, rfl⟩ :=
    (Search.run_rule (P := fun s => s.Labelled d q ∧ s.Pursued d q [] ∧ s.Ordered d q)
      (fun _ _ _ ⟨hl, hp, ho⟩ hdrop hne => ⟨hl.step hd hdrop, hp.step hdrop hne, ho.step hdrop⟩)
      ⟨Search.labelled_start, Search.pursued_start, Search.ordered_start⟩ budget).1 path h
  obtain ⟨_, hfollows⟩ := hlabelled.follows_next hdrop
  obtain ⟨x, hx, before, after, hsplit, hto, hfrom, hcost⟩ :=
    hpursued.exists_open hd hp (hpursued.source n hn)
  have hfirst := hordered.cost_le hdrop hx
  have hfound := hfollows.cost_le
  exact ⟨before, after, x.node, hsplit, hto, hfrom, by omega⟩

namespace Occupancy

/-- **What a search finds costs no more than any legal path promises** at some node on it:
what that path has cost up to there, and the tile distance from there to the target. So it is
a legal path, and no dearer than any other that is paced. -/
theorem cost_le_of_search (hd : d.Ready) (o : Occupancy) (net : NetId) (avoid sources : NodeSet)
    (target : NodeId) (budget : Nat) (path : List EdgeId)
    (h : (o.pathQuery net avoid sources target).search d budget = .ok path) :
    (∃ source, o.LegalPath d net avoid sources target source path) ∧
    ∀ source is, o.LegalPath d net avoid sources target source is →
      (∃ before after m, is = before ++ after ∧ d.IsPath source before m ∧ d.IsPath m after target ∧
        d.pathCost path ≤ d.pathCost before + (d.tileDistance? m target).getD 0) ∧
      (d.Paced is → d.pathCost path ≤ d.pathCost is) := by
  obtain ⟨start, hfound, -⟩ := exists_legalPath hd h
  refine ⟨⟨start, hfound⟩, fun source is hlegal => ?_⟩
  obtain ⟨hsource, hadmits⟩ := legalPath_iff.mp hlegal
  obtain ⟨before, after, m, rfl, hto, hfrom, hcost⟩ :=
    PathQuery.cost_le_promise hd h hsource hadmits
  refine ⟨⟨before, after, m, rfl, hto, hfrom, hcost⟩, fun hpaced => ?_⟩
  have hpaced : d.Paced after := fun i hi => hpaced i (List.mem_append_right _ hi)
  have htrust : (d.tileDistance? m target).getD 0 ≤ d.pathCost after :=
    (d.tileDistance?_le_tilesBetween m target).trans (hfrom.tilesBetween_le_pathCost hd hpaced)
  rw [Device.pathCost_append]
  exact Nat.le_trans hcost (Nat.add_le_add_left htrust _)

/-- All nodes of the fabric are in one switch box, so the way found to a sink is the
cheapest. -/
theorem shortWay_cheapest :
    let d := Placement.twoSinks.device
    let sources := IdSet.ofList [.ofIndex 0]
    let path := [.ofIndex 0, .ofIndex 1, .ofIndex 4]
    let legal := ({} : Occupancy).LegalPath d (.ofIndex 0) ∅ sources (.ofIndex 3)
    d.Ready ∧
      (({} : Occupancy).pathQuery (.ofIndex 0) ∅ sources (.ofIndex 3)).search d 10 = .ok path ∧
      (∃ source, legal source path) ∧
      ∀ source is, legal source is → d.Paced is ∧ d.pathCost path ≤ d.pathCost is := by
  intro d sources path legal
  have hd : d.Ready := Placement.ready_twoSinks
  have hfound : (({} : Occupancy).pathQuery (.ofIndex 0) ∅ sources (.ofIndex 3)).search d 10 =
      .ok path := by decide +kernel
  have hpaced : ∀ is, d.Paced is := by
    have hall : ∀ e ∈ d.edges, d.tilesBetween e.src e.dst ≤ d.entryCost e.dst := by
      decide +kernel
    exact fun is i _ e he => hall e (Array.mem_of_getElem? he)
  obtain ⟨hlegal, hcheapest⟩ :=
    cost_le_of_search hd {} (.ofIndex 0) ∅ sources (.ofIndex 3) 10 path hfound
  exact ⟨hd, hfound, hlegal, fun source is h => ⟨hpaced is, (hcheapest source is h).2 (hpaced is)⟩⟩

/-- Two ways to a pin: through a hub that adds no length, and along a wire nearby that adds
some. -/
def hubAt (col row : UInt32) : Device := (Device.build "hub" [
  .addTile "INT" 0 0 .interconnect ⟨0, 0⟩,
  .addTile "HUB" col row .clock ⟨0, 0⟩,
  .addSite "S0" (.ofIndex 0),
  .addSite "S1" (.ofIndex 0),
  .addNode "out" (.ofIndex 0) .output none,
  .addNode "hub" (.ofIndex 1) .global none,
  .addNode "wire" (.ofIndex 0) .single none,
  .addNode "in" (.ofIndex 0) .pinFeed none,
  .addEdge (.ofIndex 0) (.ofIndex 1),
  .addEdge (.ofIndex 1) (.ofIndex 3),
  .addEdge (.ofIndex 0) (.ofIndex 2),
  .addEdge (.ofIndex 2) (.ofIndex 3),
  .bindPin ⟨.ofIndex 0, "Q"⟩ (.ofIndex 0),
  .bindPin ⟨.ofIndex 1, "A"⟩ (.ofIndex 3)]).reindex

/-- The hub is ten tiles off. -/
def throughHub : Device := hubAt 10 0

/-- **Tile distances may promise too much**: the hub is far from the pin, so it is not
followed up before the way along the wire has come there, and the cheaper way is missed. -/
theorem throughHub_not_cheapest :
    let sources := IdSet.ofList [.ofIndex 0]
    let found := [.ofIndex 2, .ofIndex 3]
    let cheaper := [.ofIndex 0, .ofIndex 1]
    throughHub.Ready ∧
      (({} : Occupancy).pathQuery (.ofIndex 0) ∅ sources (.ofIndex 3)).search throughHub 10 =
        .ok found ∧
      ({} : Occupancy).LegalPath throughHub (.ofIndex 0) ∅ sources (.ofIndex 3) (.ofIndex 0)
        cheaper ∧
      throughHub.pathCost cheaper = 2 ∧ throughHub.pathCost found = 3 := by
  intro sources found cheaper
  have hfar : throughHub.edge? (.ofIndex 0) = some ⟨.ofIndex 0, .ofIndex 0, .ofIndex 1⟩ := by
    decide +kernel
  have hback : throughHub.edge? (.ofIndex 1) = some ⟨.ofIndex 1, .ofIndex 1, .ofIndex 3⟩ := by
    decide +kernel
  have hlegal : ({} : Occupancy).LegalPath throughHub (.ofIndex 0) ∅ sources (.ofIndex 3)
      (.ofIndex 0) cheaper := {
    from_source := by decide +kernel
    path := .cons hfar rfl (.cons hback rfl (.nil _))
    not_avoided := by simp
    not_used := by simp [usersOf] }
  exact ⟨Device.ready_reindex (by decide +kernel), by decide +kernel, hlegal, by decide +kernel,
    by decide +kernel⟩

/-- A hub so far off that its distance wraps round to nothing is followed up first. -/
example : (({} : Occupancy).pathQuery (.ofIndex 0) ∅ (IdSet.ofList [.ofIndex 0])
    (.ofIndex 3)).search (hubAt 4294967295 1) 10 = .ok [.ofIndex 0, .ofIndex 1] := by
  decide +kernel

end Occupancy

end HoldMargin
