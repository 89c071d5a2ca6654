import HoldMargin.Proofs.Faithful
import HoldMargin.Proofs.Sketched
import HoldMargin.Proofs.Spent
import Mathlib.Data.List.TakeWhile
/-!
# Searches that find nothing

A node that has a label is open at the cost that the label says, unless all hops
from it have been followed at that cost (`Search.Pursued`): a path that is
passed over as stale was opened at a higher cost, so it never was what kept a
node open. Along an admitted path from a source the nodes are therefore known up
to the first that is open (`Search.Pursued.exists_open`). A search that finds
nothing has nothing open, so there is no such path. The order in which paths are
followed up does not matter for this, and neither does what the tile distances
promise.

Together with what is known of a path that is found, and of what a budget is spent
on, a search settles whether a net may come from some nodes to another one
(`Occupancy.search_settles`).
-/

namespace HoldMargin

variable {d : Device} {q : PathQuery} {n m : NodeId} {is : List EdgeId}

/-- Every edge of a fit device is a hop from the node it leaves. -/
theorem Device.Ready.hop_mem (hd : d.Ready) {i : EdgeId} {e : Edge} (he : d.edge? i = some e) :
    { src := e.src, dst := e.dst, edge := e.id } ∈ d.hopsFrom e.src := by
  have hmem : e ∈ d.edges := Array.mem_of_getElem? he
  refine List.mem_map.mpr ⟨e, List.mem_filterMap.mpr ⟨e.id, ?_, hd.edge?_id hmem⟩, rfl⟩
  exact ((hd.faithful.downhill e.src).mem_iff e.id).mpr ⟨e, hmem, rfl, rfl⟩

/-- A path to the target, from any node, that enters nothing closed but the target. -/
structure PathQuery.Admits (q : PathQuery) (d : Device) (n : NodeId) (is : List EdgeId) : Prop where
  path : d.IsPath n is q.target
  free : ∀ m ∈ d.entered is, m = q.target ∨ q.isClosed m = false

namespace Search

variable {s : Search} {o : OpenPath} {last : Option Arc} {a : Arc} {busy rest : List OpenPath}
  {cost : Nat}

/-! ## Nothing is lost -/

/-- **What a search still has to do**: each node with a label is the end of an open
path of that cost, or of one of those it is busy with, or else all hops from it have been
followed at that cost. -/
structure Pursued (d : Device) (q : PathQuery) (busy : List OpenPath) (s : Search) : Prop where
  source : ∀ n ∈ q.sources, s.Knows n 0
  pursued : ∀ n l, s.labels[n]? = some l →
    (∃ o ∈ busy ++ s.frontier, o.node = n ∧ o.cost = l.cost) ∨
      n ≠ q.target ∧
        ∀ a ∈ d.hopsFrom n, q.mayEnter a.dst → s.Knows a.dst (l.cost + d.entryCost a.dst)

/-- Only paths that are stale are passed over, so none that costs what the label at its end
says. -/
theorem mem_dropWhile_isStale {l : PathLabel} (ho : o ∈ s.frontier)
    (hl : s.labels[o.node]? = some l) (hcost : o.cost = l.cost) :
    o ∈ s.frontier.dropWhile s.isStale := by
  rw [← List.takeWhile_append_dropWhile (p := s.isStale) (l := s.frontier)] at ho
  rcases List.mem_append.mp ho with ho | ho
  · have hstale := List.mem_takeWhile_imp ho
    simp [isStale, hl, hcost] at hstale
  · exact ho

theorem knows_label : (s.label o last).Knows o.node o.cost :=
  ⟨_, by rw [getElem?_labels_label, if_pos rfl], Nat.le_refl _⟩

/-- The ends of all hops from a path that has been followed up are known at what the hops
cost. -/
theorem knows_followUp (ha : a ∈ d.hopsFrom o.node) (hmay : q.mayEnter a.dst) :
    (followUp d q s o).Knows a.dst (o.cost + d.entryCost a.dst) := by
  obtain ⟨before, after, heq⟩ := List.append_of_mem ha
  rw [followUp, heq, List.foldl_append, List.foldl_cons]
  refine hops_rule (P := fun s => s.Knows a.dst (o.cost + d.entryCost a.dst)) ?_
    fun _ _ _ _ hle h => h.label hle
  rcases followHop_cases d q o.cost (before.foldl (followHop d q o.cost) s) a with
    ⟨-, -, heq⟩ | ⟨hknows, heq⟩ <;> rw [heq]
  · exact knows_label
  · exact hknows hmay

/-- The sources are known from the start. -/
theorem knows_start (hn : n ∈ q.sources) : (start d q).Knows n 0 := by
  obtain ⟨before, after, heq⟩ := List.append_of_mem (IdSet.mem_def.mp hn)
  rw [start, heq, List.foldl_append, List.foldl_cons]
  exact List.foldlRecOn (motive := fun s : Search => s.Knows n 0) after _ knows_label
    fun _ h _ _ => h.label fun _ _ => Nat.zero_le _

namespace Pursued

/-- A cheaper label may be set: its node is open. -/
theorem label (h : s.Pursued d q busy) (hle : ∀ l, s.labels[o.node]? = some l → o.cost ≤ l.cost) :
    (s.label o last).Pursued d q busy := by
  refine ⟨fun n hn => (h.source n hn).label hle, fun n l hl => ?_⟩
  rw [getElem?_labels_label] at hl
  split at hl
  · rename_i hn
    cases hl
    exact .inl ⟨o, List.mem_append_right _ (mem_enqueue.mpr (.inl rfl)), hn.symm, rfl⟩
  · refine (h.pursued n l hl).imp ?_ ?_
    · rintro ⟨x, hx, hxn, hxc⟩
      refine ⟨x, ?_, hxn, hxc⟩
      rcases List.mem_append.mp hx with hx | hx
      · exact List.mem_append_left _ hx
      · exact List.mem_append_right _ (mem_enqueue.mpr (.inr hx))
    · exact fun ⟨hne, hall⟩ => ⟨hne, fun a ha hmay => (hall a ha hmay).label hle⟩

/-- **A follow-up loses nothing.** -/
theorem step (h : s.Pursued d q []) (hdrop : s.frontier.dropWhile s.isStale = o :: rest)
    (hne : o.node ≠ q.target) :
    (followUp d q { s with frontier := rest } o).Pursued d q [] := by
  -- while it is being followed up, the path counts as one that the search is busy with
  have hbusy : Pursued d q [o] { s with frontier := rest } := by
    refine ⟨h.source, fun n l hl => (h.pursued n l hl).imp_left ?_⟩
    rintro ⟨x, hx, rfl, hxc⟩
    have hmem := mem_dropWhile_isStale hx hl hxc
    rw [hdrop] at hmem
    exact ⟨x, hmem, rfl, hxc⟩
  have hdone : (followUp d q { s with frontier := rest } o).Pursued d q [o] :=
    hops_rule hbusy fun _ _ _ _ hle h => h.label hle
  refine ⟨hdone.source, fun n l hl => ?_⟩
  rcases hdone.pursued n l hl with ⟨x, hx, rfl, hxc⟩ | hfollowed
  · rcases List.mem_cons.mp hx with rfl | hx
    · exact .inr ⟨hne, fun a ha hmay => hxc ▸ knows_followUp ha hmay⟩
    · exact .inl ⟨x, hx, rfl, hxc⟩
  · exact .inr hfollowed

/-- **The first open node of an admitted path**: if a path starts at a node that is
known, then an open path leads to one of its nodes and costs no more than the way there
along it. -/
theorem exists_open (hd : d.Ready) (h : s.Pursued d q []) (hp : q.Admits d n is)
    (hn : s.Knows n cost) :
    ∃ o ∈ s.frontier.dropWhile s.isStale, ∃ before after, is = before ++ after ∧
      d.IsPath n before o.node ∧ d.IsPath o.node after q.target ∧
      o.cost ≤ cost + d.pathCost before := by
  induction is generalizing n cost with
  | nil =>
    obtain ⟨l, hl, hle⟩ := hn
    have htarget : n = q.target := by
      cases hp.path
      rfl
    -- the target is never followed up
    obtain ⟨o, ho, rfl, hoc⟩ := (h.pursued n l hl).resolve_right fun hfollowed => hfollowed.1 htarget
    exact ⟨o, mem_dropWhile_isStale ho hl hoc, [], [], rfl, .nil _, hp.path, by simp; omega⟩
  | cons i is ih =>
    obtain ⟨l, hl, hle⟩ := hn
    rcases h.pursued n l hl with ⟨o, ho, rfl, hoc⟩ | ⟨-, hall⟩
    · exact ⟨o, mem_dropWhile_isStale ho hl hoc, [], i :: is, rfl, .nil _, hp.path, by simp; omega⟩
    obtain ⟨hpath, hfree⟩ := hp
    cases hpath with
    | @cons _ _ _ e _ he hs hpath =>
    subst hs
    rw [Device.entered_cons he] at hfree
    -- the first hop has been followed, unless it leads to a source, which is known anyway
    have hnext : s.Knows e.dst (cost + d.entryCost e.dst) := by
      by_cases hsource : e.dst ∈ q.sources
      · exact (h.source _ hsource).mono (Nat.zero_le _)
      · have hmay := PathQuery.mayEnter_iff.mpr ⟨hsource, hfree e.dst List.mem_cons_self⟩
        exact (hall _ (hd.hop_mem he) hmay).mono (Nat.add_le_add_right hle _)
    obtain ⟨o, ho, before, after, rfl, hto, hfrom, hcost⟩ :=
      ih ⟨hpath, fun m hm => hfree m (List.mem_cons_of_mem _ hm)⟩ hnext
    refine ⟨o, ho, i :: before, after, rfl, .cons he rfl hto, hfrom, ?_⟩
    rw [Device.pathCost_cons he]
    omega

end Pursued

theorem pursued_start : (start d q).Pursued d q [] := by
  refine ⟨fun n hn => knows_start hn, fun n l hl => .inl ?_⟩
  refine List.foldlRecOn (motive := fun s : Search => ∀ n l, s.labels[n]? = some l →
    ∃ o ∈ s.frontier, o.node = n ∧ o.cost = l.cost) q.sources.toList _ ?_ ?_ n l hl
  · intro n l hl
    simp at hl
  · intro s h m _ n l hl
    rw [getElem?_labels_label] at hl
    split at hl
    · rename_i hn
      cases hl
      exact ⟨_, mem_enqueue.mpr (.inl rfl), hn.symm, rfl⟩
    · obtain ⟨o, ho, hon, hoc⟩ := h n l hl
      exact ⟨o, mem_enqueue.mpr (.inr ho), hon, hoc⟩

end Search

/-- **A search that finds nothing** has nothing to find. -/
theorem PathQuery.not_admits_of_noPath (hd : d.Ready) {budget : Nat}
    (h : q.search d budget = .error .noPath) (hn : n ∈ q.sources) : ¬ q.Admits d n is := by
  obtain ⟨s, hs, hdrop⟩ :=
    (Search.run_rule (P := Search.Pursued d q []) (fun _ _ _ h hdrop hne => h.step hdrop hne)
      Search.pursued_start budget).2 h
  intro hp
  obtain ⟨o, ho, -⟩ := hs.exists_open hd hp (hs.source n hn)
  rw [hdrop] at ho
  cases ho

/-! ## Paths of a net -/

namespace Occupancy

variable {o : Occupancy} {net : NetId} {avoid sources : NodeSet} {source target : NodeId}

/-- **A path that a net may take**: it enters no node that is to be avoided and none that
another net uses, the target apart. -/
structure LegalPath (d : Device) (o : Occupancy) (net : NetId) (avoid sources : NodeSet)
    (target source : NodeId) (is : List EdgeId) : Prop where
  from_source : source ∈ sources
  path : d.IsPath source is target
  not_avoided : ∀ n ∈ d.entered is, n ≠ target → n ∉ avoid
  not_used : ∀ n ∈ d.entered is, n ≠ target → ∀ other ∈ o.usersOf n, other = net

/-- The legal paths are those that the query of the net admits. -/
theorem legalPath_iff : o.LegalPath d net avoid sources target source is ↔
    source ∈ sources ∧ (o.pathQuery net avoid sources target).Admits d source is := by
  have hclosed : ∀ n, (o.pathQuery net avoid sources target).isClosed n = false ↔
      n ∉ avoid ∧ ∀ other ∈ o.usersOf n, other = net := by
    intro n
    rw [← Bool.not_eq_true]
    simp [pathQuery, isClosedTo_iff]
  constructor
  · rintro ⟨hsource, hpath, havoid, hused⟩
    refine ⟨hsource, hpath, fun n hn => ?_⟩
    rw [hclosed, or_iff_not_imp_left]
    exact fun hne => ⟨havoid n hn hne, hused n hn hne⟩
  · rintro ⟨hsource, hpath, hfree⟩
    simp only [hclosed, or_iff_not_imp_left] at hfree
    exact ⟨hsource, hpath, fun n hn hne => (hfree n hn hne).1, fun n hn hne => (hfree n hn hne).2⟩

/-- **What is found for a net** is a legal path that comes back to no node and to no source. -/
theorem exists_legalPath (hd : d.Ready) {budget : Nat}
    (h : (o.pathQuery net avoid sources target).search d budget = .ok is) :
    ∃ source, o.LegalPath d net avoid sources target source is ∧
      (source :: d.entered is).Nodup ∧ ∀ n ∈ d.entered is, n ∉ sources := by
  obtain ⟨source, hsource, hpath, hnodup, hmay⟩ := PathQuery.search_eq_ok hd h
  simp only [PathQuery.mayEnter_iff] at hmay
  exact ⟨source, legalPath_iff.mpr ⟨hsource, hpath, fun n hn => (hmay n hn).2⟩, hnodup,
    fun n hn => (hmay n hn).1⟩

/-- **A search settles whether a net has a legal path**, unless its budget is spent. What
it finds is one that comes back to no node and to no source, the empty one if the target is a
source; where it finds none, there is none. Its budget is spent exactly if one expansion more
can be made than it allows, and only so many can be made at all. -/
theorem search_settles (hd : d.Ready) (o : Occupancy) (net : NetId) (avoid sources : NodeSet)
    (target : NodeId) (budget : Nat) :
    let query := o.pathQuery net avoid sources target
    let found := query.search d budget
    (∀ is, found = .ok is →
      (is = [] ↔ target ∈ sources) ∧
      ∃ source, o.LegalPath d net avoid sources target source is ∧
        (source :: d.entered is).Nodup ∧ ∀ n ∈ d.entered is, n ∉ sources) ∧
    (found = .error .noPath → ∀ source is, ¬ o.LegalPath d net avoid sources target source is) ∧
    (found ≠ .error .budgetSpent →
      ((∃ is, found = .ok is) ↔
        ∃ source is, o.LegalPath d net avoid sources target source is)) ∧
    (found = .error .budgetSpent ↔ ∃ s, Search.Expanded d query s (budget + 1)) ∧
    ∃ most, ∀ s expansions, Search.Expanded d query s expansions → expansions ≤ most := by
  intro query found
  have hcomplete : found = .error .noPath →
      ∀ source is, ¬ o.LegalPath d net avoid sources target source is := by
    intro h source is hlegal
    obtain ⟨hsource, hadmits⟩ := legalPath_iff.mp hlegal
    exact PathQuery.not_admits_of_noPath hd h hsource hadmits
  refine ⟨fun is h => ⟨?_, exists_legalPath hd h⟩, hcomplete, fun hbudget => ⟨?_, ?_⟩,
    Search.run_eq_budgetSpent_iff, Search.exists_expanded_le d query⟩
  · obtain ⟨source, hlegal, -, hfresh⟩ := exists_legalPath hd h
    constructor
    · rintro rfl
      cases hlegal.path
      exact hlegal.from_source
    · intro htarget
      -- a path with a first edge enters the target
      cases hlegal.path with
      | nil => rfl
      | cons he _ hrest =>
        rw [Device.entered_cons he] at hfresh
        exact absurd htarget (hfresh target hrest.target_mem)
  · rintro ⟨is, h⟩
    obtain ⟨source, hlegal, -⟩ := exists_legalPath hd h
    exact ⟨source, is, hlegal⟩
  · rintro ⟨source, is, hlegal⟩
    cases hfound : found with
    | ok is => exact ⟨is, rfl⟩
    | error failure =>
      cases failure with
      | noPath => exact absurd hlegal (hcomplete hfound source is)
      | budgetSpent => exact absurd hfound hbudget

/-- The long way to the first of two sinks, in use by a net. -/
def longWayTaken : Occupancy := ({} : Occupancy).add (.ofIndex 4) (.ofIndex 1)

/-- With the short way to be avoided, the net that uses the long way may take it, and another
net finds nothing. It takes five expansions to come to the end of the long way. -/
theorem longWayTaken_settled :
    let d := Placement.twoSinks.device
    let avoid := IdSet.ofList [.ofIndex 2]
    let sources := IdSet.ofList [.ofIndex 0]
    let query := fun net => longWayTaken.pathQuery net avoid sources (.ofIndex 3)
    let legal := fun net => longWayTaken.LegalPath d net avoid sources (.ofIndex 3)
    d.Ready ∧
      (query (.ofIndex 1)).search d 5 = .ok [.ofIndex 0, .ofIndex 2, .ofIndex 3] ∧
      (∃ source, legal (.ofIndex 1) source [.ofIndex 0, .ofIndex 2, .ofIndex 3]) ∧
      (query (.ofIndex 0)).search d 5 = .error .noPath ∧
      (∀ source is, ¬ legal (.ofIndex 0) source is) ∧
      (∃ s, Search.Expanded d (query (.ofIndex 1)) s 5) ∧
      ¬ ∃ s, Search.Expanded d (query (.ofIndex 1)) s 6 := by
  intro d avoid sources query legal
  have hd := Placement.ready_twoSinks
  have hsettled := fun net => search_settles hd longWayTaken net avoid sources (.ofIndex 3)
  have hfound : (query (.ofIndex 1)).search d 5 = .ok [.ofIndex 0, .ofIndex 2, .ofIndex 3] := by
    decide +kernel
  have hnone : (query (.ofIndex 0)).search d 5 = .error .noPath := by decide +kernel
  have hspent : (query (.ofIndex 1)).search d 4 = .error .budgetSpent := by decide +kernel
  obtain ⟨-, source, hlegal, -⟩ := (hsettled (.ofIndex 1) 5).1 _ hfound
  obtain ⟨-, -, -, hfour, -⟩ := hsettled (.ofIndex 1) 4
  obtain ⟨-, -, -, hfive, -⟩ := hsettled (.ofIndex 1) 5
  refine ⟨hd, hfound, ⟨source, hlegal⟩, hnone, (hsettled (.ofIndex 0) 5).2.1 hnone,
    hfour.mp hspent, fun hmore => ?_⟩
  have hcontra := hfound.symm.trans (hfive.mpr hmore)
  cases hcontra

end Occupancy

end HoldMargin
