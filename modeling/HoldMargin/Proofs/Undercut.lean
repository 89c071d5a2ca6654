import HoldMargin.Proofs.Guided
import HoldMargin.Proofs.Turns
/-!
# Why a search ends

Each path that a search opens undercuts what the end of the path is labelled with, so that
there is less and less left to be done (`Search.remaining`). Here a search is run without a
budget, turn by turn, and takes notes of the paths it opens (`NotedSearch.turn`); it comes
to what the search comes to whose budget is large enough (`NotedSearch.exists_enough`).

A label may have been undercut since labels were set on the nodes after it. So a label is
not what its last hop costs on top of the label before it, but it is no less
(`Search.Labelled.hop`). That is enough for the labels to lead back to a source, past no
node twice (`Search.Labelled.loopWithin_back`).
-/

namespace HoldMargin

open Relation

variable {d : Device} {q : PathQuery} {n : NodeId}

namespace Search

variable {s : Search} {o : OpenPath} {last : Option Arc} {a : Arc} {rest : List OpenPath}

/-! ## Passing over a stale path -/

theorem dropWhile_of_not_stale (hfrontier : s.frontier = o :: rest) (hstale : s.isStale o = false) :
    s.frontier.dropWhile s.isStale = o :: rest := by
  rw [hfrontier, List.dropWhile_cons_of_neg (by simp [hstale])]

theorem dropWhile_of_stale (hfrontier : s.frontier = o :: rest) (hstale : s.isStale o = true) :
    s.frontier.dropWhile s.isStale = rest.dropWhile s.isStale := by
  rw [hfrontier, List.dropWhile_cons_of_pos hstale]

theorem Labelled.skip (h : s.Labelled d q) (hfrontier : s.frontier = o :: rest) :
    Labelled d q { s with frontier := rest } :=
  ⟨h.source, h.hop, fun x hx => h.opened x (hfrontier ▸ List.mem_cons_of_mem _ hx)⟩

theorem Ordered.skip (h : s.Ordered d q) (hfrontier : s.frontier = o :: rest) :
    Ordered d q { s with frontier := rest } := by
  obtain ⟨hascending, hestimate⟩ := h
  rw [hfrontier] at hascending hestimate
  exact ⟨hascending.tail, fun x hx => hestimate x (List.mem_cons_of_mem _ hx)⟩

theorem Pursued.skip (h : s.Pursued d q []) (hfrontier : s.frontier = o :: rest)
    (hstale : s.isStale o = true) : Pursued d q [] { s with frontier := rest } := by
  refine ⟨h.source, fun n l hl => (h.pursued n l hl).imp_left ?_⟩
  rintro ⟨x, hx, rfl, hxc⟩
  have hmem := mem_dropWhile_isStale hx hl hxc
  rw [dropWhile_of_stale hfrontier hstale] at hmem
  exact ⟨x, (List.dropWhile_sublist _).subset hmem, rfl, hxc⟩

theorem pathTo_skip (n : NodeId) (is : List EdgeId) (hops : Nat) :
    pathTo { s with frontier := rest } n is hops = s.pathTo n is hops := by
  induction hops generalizing n is with
  | zero => rfl
  | succ hops ih =>
    rw [pathTo, pathTo]
    simp only [ih]

/-- A stale path makes no difference. -/
theorem run_of_stale (hfrontier : s.frontier = o :: rest) (hstale : s.isStale o = true)
    (budget : Nat) : run d q { s with frontier := rest } budget = s.run d q budget := by
  have hdrop : rest.dropWhile { s with frontier := rest }.isStale =
      s.frontier.dropWhile s.isStale := (dropWhile_of_stale hfrontier hstale).symm
  rw [run, run, hdrop]
  simp only [pathTo_skip]

/-- **A path to the target that comes up is not stale**: the path that the target is
labelled with is still open, and would have come up before. -/
theorem Ordered.not_stale_of_target (hordered : s.Ordered d q) (hpursued : s.Pursued d q [])
    (hfrontier : s.frontier = o :: rest) (htarget : o.node = q.target) : s.isStale o = false := by
  unfold isStale
  cases hl : s.labels[o.node]? with
  | none => rfl
  | some l =>
    -- the target is never followed up, so it is still open at what its label says
    obtain ⟨x, hx, hxn, hxc⟩ := (hpursued.pursued o.node l hl).resolve_right fun h => h.1 htarget
    have hfirst : o.estimate ≤ x.estimate := by
      rw [List.nil_append, hfrontier] at hx
      rcases List.mem_cons.mp hx with rfl | hx
      · exact Nat.le_refl _
      · exact (List.pairwise_cons.mp (hfrontier ▸ hordered.ascending)).1 x hx
    have ho := hordered.estimate o (hfrontier ▸ List.mem_cons_self)
    have hx' := hordered.estimate x hx
    rw [hxn] at hx'
    simp only [Option.any_some, decide_eq_false_iff_not]
    omega

/-! ## Following the labels back -/

/-- How far the labels have been followed back: the edges lead from a node to where the
way back began. -/
structure WayBack where
  node : NodeId
  edges : List EdgeId

/-- A turn of the way back: it is done at a source, and where no label has a last hop. -/
def back (q : PathQuery) (s : Search) (w : WayBack) : Turn WayBack WayBack :=
  if w.node ∈ q.sources then .done w
  else
    match (s.labels[w.node]?).bind PathLabel.last with
    | some a => .again { node := a.src, edges := a.edge :: w.edges }
    | none => .done w

/-- **The way back is done at a source**, and has collected the path to where it began. -/
theorem Labelled.loopWithin_back (h : s.Labelled d q) {hops : Nat} {l : PathLabel}
    (hl : s.labels[n]? = some l) (hops_le : s.cheaper l.cost ≤ hops) :
    ∃ source ∈ q.sources,
      loopWithin (s.back q) (hops + 1) ⟨n, []⟩ = some ⟨source, s.pathTo n [] hops⟩ ∧
      d.IsPath source (s.pathTo n [] hops) n := by
  refine h.back_rule (P := fun m hops => ∀ edges, d.IsPath m edges n → ∃ source ∈ q.sources,
    loopWithin (s.back q) (hops + 1) ⟨m, edges⟩ = some ⟨source, s.pathTo m edges hops⟩ ∧
      d.IsPath source (s.pathTo m edges hops) n) ?_ ?_ hl hops_le [] (.nil n)
  · intro m l hops hl hm hlast edges hpath
    rw [pathTo_of_last_eq_none hl hlast]
    exact ⟨m, hm, loopWithin_done (if_pos hm), hpath⟩
  · intro a l l' hops hl hm hlast ha hl' hcost ih edges hpath
    have hturn : s.back q ⟨a.dst, edges⟩ = .again ⟨a.src, a.edge :: edges⟩ := by
      simp only [back, if_neg hm, hl, Option.bind_some, hlast]
    obtain ⟨-, e, he, hsrc, hdst⟩ := ha
    rw [loopWithin_again hturn, pathTo_of_last_eq_some hl hlast]
    exact ih (a.edge :: edges) (.cons he hsrc (hdst ▸ hpath))

/-- **What has come up can be followed back** to a source, along a path that comes back to
no node. -/
theorem Labelled.exists_wayBack (h : s.Labelled d q) (hopen : o ∈ s.frontier) :
    ∃ w, loopWithin (s.back q) (s.labels.size + 1) ⟨o.node, []⟩ = some w ∧ w.node ∈ q.sources ∧
      d.IsPath w.node w.edges o.node ∧ (w.node :: d.entered w.edges).Nodup ∧
      w.edges = s.pathTo o.node [] s.labels.size := by
  obtain ⟨l, hl, -⟩ := h.opened o hopen
  obtain ⟨source, hsource, hloop, hpath⟩ :=
    h.loopWithin_back hl (cheaper_le_size _)
  obtain ⟨source', is, heq, hfollows⟩ := h.follows_pathTo [] hl (cheaper_le_size _)
  rw [List.append_nil] at heq
  rw [heq] at hloop hpath
  obtain rfl := hpath.source_unique hfollows.path
  exact ⟨_, hloop, hsource, hpath, hfollows.nodup, heq.symm⟩

end Search

/-! ## Searches that take notes -/

/-- A search that notes the paths it opens, the first one first. -/
structure NotedSearch extends Search where
  opened : List OpenPath := []

namespace NotedSearch

/-- The search with a new cheapest path to a node, which is opened. -/
def label (t : NotedSearch) (o : OpenPath) (last : Option Arc) : NotedSearch where
  toSearch := t.toSearch.label o last
  opened := t.opened ++ [o]

variable (d q)

/-- The search with only the sources reached. -/
def start : NotedSearch := q.sources.toList.foldl (fun t n => t.label (q.openPath d n 0) none) {}

/-- Follows a hop from the end of a path of some cost. -/
def followHop (cost : Nat) (t : NotedSearch) (a : Arc) : NotedSearch :=
  let cost := cost + d.entryCost a.dst
  if q.mayEnter a.dst && t.undercuts a.dst cost then t.label (q.openPath d a.dst cost) (some a)
  else t

/-- Follows all hops from the end of a path. -/
def followUp (t : NotedSearch) (o : OpenPath) : NotedSearch :=
  (d.hopsFrom o.node).foldl (followHop d q o.cost) t

/-- A turn of a search without a budget: the most promising path is taken out, and the
search is done if it ends at the target. Else it is followed up, unless it is stale. -/
def turn (t : NotedSearch) : Turn NotedSearch (Except SearchFailure (List EdgeId)) :=
  match t.frontier with
  | [] => .done (.error .noPath)
  | o :: rest =>
    if o.node = q.target then .done (.ok (t.pathTo o.node [] t.labels.size))
    else if t.isStale o then .again { t with frontier := rest }
    else .again (followUp d q { t with frontier := rest } o)

/-- What a search comes to, turn by turn. -/
def Reached : NotedSearch → Prop := ReflTransGen (fun t t' => turn d q t = .again t') (start d q)

variable {d q} {t t' : NotedSearch} {o : OpenPath} {last : Option Arc} {rest : List OpenPath}

/-! ### Notes make no difference -/

theorem toSearch_start : (start d q).toSearch = Search.start d q :=
  (List.foldl_hom NotedSearch.toSearch fun _ _ => rfl).symm

theorem toSearch_followHop (cost : Nat) (t : NotedSearch) (a : Arc) :
    (followHop d q cost t a).toSearch = t.toSearch.followHop d q cost a := by
  unfold followHop Search.followHop
  dsimp only
  split <;> rfl

theorem toSearch_followUp (t : NotedSearch) (o : OpenPath) :
    (followUp d q t o).toSearch = t.toSearch.followUp d q o :=
  (List.foldl_hom NotedSearch.toSearch fun t a => (toSearch_followHop o.cost t a).symm).symm

/-- **What a turn does** if the search goes on. -/
theorem turn_eq_again (h : turn d q t = .again t') :
    ∃ o rest, t.frontier = o :: rest ∧ o.node ≠ q.target ∧
      (t.isStale o = true ∧ t' = { t with frontier := rest } ∨
        t.isStale o = false ∧ t' = followUp d q { t with frontier := rest } o) := by
  unfold turn at h
  split at h
  · cases h
  rename_i o rest hfrontier
  split at h
  · cases h
  rename_i hne
  refine ⟨o, rest, hfrontier, hne, ?_⟩
  split at h
  · rename_i hstale
    cases h
    exact .inl ⟨hstale, rfl⟩
  · rename_i hstale
    cases h
    exact .inr ⟨by simpa using hstale, rfl⟩

/-! ### Paths that undercut each other -/

/-- **What is opened is ever cheaper**: a path undercuts all paths that were opened to its end
before it. -/
structure Falling (t : NotedSearch) : Prop where
  ever_cheaper : t.opened.Pairwise fun o o' => o.node = o'.node → o'.cost < o.cost
  known : ∀ o ∈ t.opened, t.Knows o.node o.cost

/-- A path may be opened that undercuts the label at its end. -/
theorem Falling.label (h : t.Falling)
    (hlt : ∀ l, t.labels[o.node]? = some l → o.cost < l.cost) : (t.label o last).Falling := by
  constructor
  · refine List.pairwise_append.mpr ⟨h.ever_cheaper, List.pairwise_singleton _ _, ?_⟩
    intro x hx y hy hnode
    rw [List.mem_singleton] at hy
    subst hy
    obtain ⟨l, hl, hle⟩ := h.known x hx
    exact Nat.lt_of_lt_of_le (hlt l (hnode ▸ hl)) hle
  · intro x hx
    rcases List.mem_append.mp hx with hx | hx
    · exact (h.known x hx).label fun l hl => Nat.le_of_lt (hlt l hl)
    · rw [List.mem_singleton] at hx
      exact hx ▸ Search.knows_label

theorem Falling.skip (h : t.Falling) : Falling { t with frontier := rest } :=
  ⟨h.ever_cheaper, h.known⟩

theorem Falling.followUp (h : t.Falling) : (followUp d q t o).Falling := by
  refine List.foldlRecOn (d.hopsFrom o.node) _ h fun t h a _ => ?_
  unfold followHop
  dsimp only
  split
  · rename_i hif
    rw [Bool.and_eq_true] at hif
    refine h.label fun l hl => ?_
    have hlow := hif.2
    rw [PathQuery.openPath_node] at hl
    rw [PathQuery.openPath_cost]
    simpa only [Search.undercuts, hl, Option.all_some, decide_eq_true_eq] using hlow
  · exact h

theorem falling_start : (start d q).Falling := by
  -- a source has no label before its turn comes
  have hall : ∀ (ns : List NodeId) (t : NotedSearch), ns.Nodup → (∀ n ∈ ns, t.labels[n]? = none) →
      t.Falling → (ns.foldl (fun t n => t.label (q.openPath d n 0) none) t).Falling := by
    intro ns
    induction ns with
    | nil => exact fun t _ _ h => h
    | cons n ns ih =>
      intro t hnodup hnone h
      obtain ⟨hn, hnodup⟩ := List.nodup_cons.mp hnodup
      refine ih _ hnodup (fun m hm => ?_) (h.label fun l hl => ?_)
      · have hne : m ≠ n := fun heq => hn (heq ▸ hm)
        show (t.toSearch.label (q.openPath d n 0) none).labels[m]? = none
        rw [Search.getElem?_labels_label, PathQuery.openPath_node, if_neg hne]
        exact hnone m (List.mem_cons_of_mem _ hm)
      · have hno := hnone n List.mem_cons_self
        rw [PathQuery.openPath_node, hno] at hl
        cases hl
  exact hall _ _ q.sources.nodup (fun n _ => by simp) ⟨.nil, nofun⟩

/-! ### Turns -/

/-- What every turn of a search keeps. -/
structure Sound (d : Device) (q : PathQuery) (t : NotedSearch) : Prop where
  labelled : t.Labelled d q
  pursued : t.Pursued d q []
  ordered : t.Ordered d q
  falling : t.Falling

theorem sound_start : (start d q).Sound d q where
  labelled := toSearch_start ▸ Search.labelled_start
  pursued := toSearch_start ▸ Search.pursued_start
  ordered := toSearch_start ▸ Search.ordered_start
  falling := falling_start

theorem Sound.turn (hd : d.Ready) (h : t.Sound d q) (hturn : turn d q t = .again t') :
    t'.Sound d q := by
  obtain ⟨o, rest, hfrontier, hne, ⟨hstale, rfl⟩ | ⟨hstale, rfl⟩⟩ := turn_eq_again hturn
  · exact ⟨h.labelled.skip hfrontier, h.pursued.skip hfrontier hstale, h.ordered.skip hfrontier,
      h.falling.skip⟩
  · have hdrop := Search.dropWhile_of_not_stale hfrontier hstale
    refine ⟨?_, ?_, ?_, h.falling.skip.followUp⟩ <;> rw [toSearch_followUp]
    · exact h.labelled.step hd hdrop
    · exact h.pursued.step hdrop hne
    · exact h.ordered.step hdrop

theorem Reached.sound (hd : d.Ready) (h : Reached d q t) : t.Sound d q := by
  induction h with
  | refl => exact sound_start
  | tail _ hturn ih => exact ih.turn hd hturn

/-- **A search is done after some turns**: each of them leaves less to be done. -/
theorem exists_loopWithin_turn (d : Device) (q : PathQuery) (t : NotedSearch) :
    ∃ turns found, loopWithin (turn d q) turns t = some found := by
  let : WellFoundedRelation ((Fin d.edges.size → WithTop Nat) ×ₗ Nat) :=
    WellFoundedLT.toWellFoundedRelation
  refine exists_loopWithin_of_decreases (fun t : NotedSearch => t.remaining d)
    (fun t t' hturn => ?_) t
  obtain ⟨o, rest, hfrontier, -, hnext⟩ := turn_eq_again hturn
  have hshorter : rest.length < t.frontier.length := by simp [hfrontier]
  obtain ⟨-, rfl⟩ | ⟨-, rfl⟩ := hnext
  · exact Search.remaining_lt_of_shorter hshorter
  · rw [toSearch_followUp]
    exact Search.remaining_followUp_lt hshorter

/-- A turn takes some of a budget, or nothing if it passes over a stale path. -/
theorem exists_run_of_again (hturn : turn d q t = .again t') :
    ∃ spent, ∀ budget, t.run d q (budget + spent) = t'.run d q budget := by
  obtain ⟨o, rest, hfrontier, hne, ⟨hstale, rfl⟩ | ⟨hstale, rfl⟩⟩ := turn_eq_again hturn
  · exact ⟨0, fun budget => (Search.run_of_stale hfrontier hstale budget).symm⟩
  · refine ⟨1, fun budget => ?_⟩
    rw [Search.run, Search.dropWhile_of_not_stale hfrontier hstale, toSearch_followUp]
    simp only [if_neg hne]

/-- A search that is done needs no budget to come to what it has come to. -/
theorem run_of_done (h : t.Sound d q) {found : Except SearchFailure (List EdgeId)}
    (hturn : turn d q t = .done found) (budget : Nat) :
    found ≠ .error .budgetSpent ∧ t.run d q budget = found := by
  unfold turn at hturn
  split at hturn
  · rename_i hfrontier
    cases hturn
    exact ⟨by simp, by rw [Search.run, hfrontier]; rfl⟩
  rename_i o rest hfrontier
  split at hturn
  · rename_i htarget
    cases hturn
    have hstale := h.ordered.not_stale_of_target h.pursued hfrontier htarget
    refine ⟨by simp, ?_⟩
    rw [Search.run, Search.dropWhile_of_not_stale hfrontier hstale]
    simp only [if_pos htarget]
  · split at hturn <;> cases hturn

/-- **A search without a budget comes to what a search comes to whose budget is large
enough.** -/
theorem exists_enough (hd : d.Ready) {turns : Nat} {found : Except SearchFailure (List EdgeId)}
    (h : t.Sound d q) (hloop : loopWithin (turn d q) turns t = some found) :
    found ≠ .error .budgetSpent ∧
      ∃ enough, ∀ budget, enough ≤ budget → t.run d q budget = found := by
  induction turns generalizing t with
  | zero => cases hloop
  | succ turns ih =>
    cases hturn : turn d q t with
    | again t' =>
      rw [loopWithin_again hturn] at hloop
      obtain ⟨hfound, enough, henough⟩ := ih (h.turn hd hturn) hloop
      obtain ⟨spent, hrun⟩ := exists_run_of_again hturn
      refine ⟨hfound, enough + spent, fun budget hle => ?_⟩
      obtain ⟨left, rfl⟩ := Nat.exists_eq_add_of_le' (Nat.le_trans (Nat.le_add_left _ _) hle)
      rw [hrun, henough left (by omega)]
    | done found' =>
      rw [loopWithin_done hturn, Option.some.injEq] at hloop
      subst hloop
      exact ⟨(run_of_done h hturn 0).1, 0, fun budget _ => (run_of_done h hturn budget).2⟩

end NotedSearch

/-- **A search ends**, wherever the tiles are: without a budget it is done after some turns,
and comes to what it comes to within any budget that is large enough. Every path it opens is
cheaper than those it opened to the same node before. At any time a source has no last hop,
and any other label is no less than what entering its node costs on top of the label that its
last hop leaves. So whatever comes up can be followed back to a source, past no node twice;
if it has come to the target, that is the path that is found. -/
theorem PathQuery.search_ends (hd : d.Ready) (q : PathQuery) :
    (∃ turns found, loopWithin (NotedSearch.turn d q) turns (NotedSearch.start d q) = some found ∧
      found ≠ .error .budgetSpent ∧
      ∃ enough, ∀ budget, enough ≤ budget → q.search d budget = found) ∧
    ∀ t, NotedSearch.Reached d q t →
      (t.opened.Pairwise fun o o' => o.node = o'.node → o'.cost < o.cost) ∧
      (∀ n l a, t.labels[n]? = some l → l.last = some a → n ∉ q.sources ∧
        ∃ l', t.labels[a.src]? = some l' ∧ l'.cost + d.entryCost n ≤ l.cost) ∧
      ∀ o rest, t.frontier = o :: rest →
        ∃ turns w, loopWithin (t.back q) turns ⟨o.node, []⟩ = some w ∧ w.node ∈ q.sources ∧
          d.IsPath w.node w.edges o.node ∧ (w.node :: d.entered w.edges).Nodup ∧
          (o.node = q.target → NotedSearch.turn d q t = .done (.ok w.edges)) := by
  refine ⟨?_, fun t ht => ?_⟩
  · obtain ⟨turns, found, hloop⟩ := NotedSearch.exists_loopWithin_turn d q (NotedSearch.start d q)
    have henough := NotedSearch.exists_enough hd NotedSearch.sound_start hloop
    rw [NotedSearch.toSearch_start] at henough
    exact ⟨turns, found, hloop, henough⟩
  · obtain ⟨hlabelled, -, -, hfalling⟩ := ht.sound hd
    refine ⟨hfalling.ever_cheaper, fun n l a hl hlast => ?_, fun o rest hfrontier => ?_⟩
    · rcases hlabelled.origin hl with ⟨-, hno⟩ | ⟨hsource, a', l', hlast', -, -, hl', hcost⟩
      · rw [hlast] at hno
        cases hno
      · rw [hlast, Option.some.injEq] at hlast'
        exact ⟨hsource, l', hlast' ▸ hl', hcost⟩
    · obtain ⟨w, hloop, hsource, hpath, hnodup, hedges⟩ :=
        hlabelled.exists_wayBack (hfrontier ▸ List.mem_cons_self)
      refine ⟨_, w, hloop, hsource, hpath, hnodup, fun htarget => ?_⟩
      rw [NotedSearch.turn, hfrontier]
      simp only [if_pos htarget, hedges]

/-- Two ways to a node before the end: through a hub ten tiles off that adds no length, and
along a wire nearby that adds some. The node is also before the wire again. -/
def pastHub : Device := (Device.build "hub" [
  .addTile "INT" 0 0 .interconnect ⟨0, 0⟩,
  .addTile "HUB" 10 0 .clock ⟨0, 0⟩,
  .addSite "S0" (.ofIndex 0),
  .addNode "out" (.ofIndex 0) .output none,
  .addNode "hub" (.ofIndex 1) .global none,
  .addNode "wire" (.ofIndex 0) .single none,
  .addNode "in" (.ofIndex 0) .pinFeed none,
  .addNode "end" (.ofIndex 0) .long (some 20),
  .addEdge (.ofIndex 0) (.ofIndex 1),
  .addEdge (.ofIndex 1) (.ofIndex 3),
  .addEdge (.ofIndex 0) (.ofIndex 2),
  .addEdge (.ofIndex 2) (.ofIndex 3),
  .addEdge (.ofIndex 3) (.ofIndex 2),
  .addEdge (.ofIndex 3) (.ofIndex 4)]).reindex

/-- What is found without a budget is the way through the hub, though the wire has come to the
node before the end first: of six turns the last is for the end, and of the others two are for
that node. -/
theorem pastHub_ends :
    let q : PathQuery := {
      sources := IdSet.ofList [.ofIndex 0], target := .ofIndex 4, isClosed := fun _ => false }
    let found := Except.ok [.ofIndex 0, .ofIndex 1, .ofIndex 5]
    let loop := fun turns =>
      loopWithin (NotedSearch.turn pastHub q) turns (NotedSearch.start pastHub q)
    pastHub.Ready ∧ loop 5 = none ∧ loop 6 = some found ∧
      (∃ enough, ∀ budget, enough ≤ budget → q.search pastHub budget = found) ∧
      ∀ t, NotedSearch.Reached pastHub q t →
        t.opened.Pairwise fun o o' => o.node = o'.node → o'.cost < o.cost := by
  intro q found loop
  have hd : pastHub.Ready := Device.ready_reindex (by decide +kernel)
  have hloop : loop 6 = some found := by decide +kernel
  obtain ⟨⟨turns, found', hloop', -, henough⟩, hreached⟩ := PathQuery.search_ends hd q
  obtain rfl := loopWithin_unique hloop hloop'
  exact ⟨hd, by decide +kernel, hloop, henough, fun t ht => (hreached t ht).1⟩

end HoldMargin
