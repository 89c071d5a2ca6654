import HoldMargin.Proofs.Hops
import HoldMargin.Proofs.Sought
import Mathlib.Data.DFinsupp.WellFounded
import Mathlib.Data.Prod.Lex
import Mathlib.Order.WithBot
/-!
# What a search spends its budget on

An expansion follows up the most promising path that is not stale. A search has spent its
budget exactly if one expansion more can be made than the budget allows
(`Search.run_eq_budgetSpent_iff`).

A search may follow a node up again and again, so it is not the nodes it has seen that come
to an end. But each path it opens undercuts what the end of the path is labelled with. So
the labels of the nodes that edges lead to only ever fall (`Search.followUp_eq_or_lt`), and
as there are finitely many of these nodes, and costs are natural numbers, they cannot fall
for ever. Between two falls the search only shortens what is left to be followed up
(`Search.remaining`). So there is a number of expansions that no search goes beyond
(`Search.exists_expanded_le`).
-/

namespace HoldMargin

variable {d : Device} {q : PathQuery} {n : NodeId}

theorem Device.exists_of_mem_hopsFrom {a : Arc} (h : a ∈ d.hopsFrom n) :
    ∃ i : Fin d.edges.size, d.edges[i].dst = a.dst := by
  obtain ⟨e, he, rfl⟩ := List.mem_map.mp h
  obtain ⟨j, -, hj⟩ := List.mem_filterMap.mp he
  obtain ⟨hlt, rfl⟩ := Array.getElem?_eq_some_iff.mp hj
  exact ⟨⟨j.index, hlt⟩, rfl⟩

namespace Search

variable {s s' s'' : Search} {o : OpenPath} {last : Option Arc} {rest : List OpenPath}

/-! ## Expansions -/

/-- **An expansion**: of the paths that are not stale the most promising one is followed up,
unless it ends at the target. -/
def Expands (d : Device) (q : PathQuery) (s s' : Search) : Prop :=
  ∃ o rest, s.frontier.dropWhile s.isStale = o :: rest ∧ o.node ≠ q.target ∧
    s' = followUp d q { s with frontier := rest } o

/-- What a search has come to after so many expansions. -/
abbrev Expanded (d : Device) (q : PathQuery) : Search → Nat → Prop :=
  Hops (Expands d q) [start d q]

theorem Expands.unique (h : Expands d q s s') (h' : Expands d q s s'') : s' = s'' := by
  obtain ⟨o, rest, hdrop, -, rfl⟩ := h
  obtain ⟨o', rest', hdrop', -, rfl⟩ := h'
  rw [hdrop] at hdrop'
  cases hdrop'
  rfl

/-- **A budget is spent** exactly if one expansion more can be made than it allows. -/
theorem run_eq_budgetSpent_iff {budget : Nat} :
    s.run d q budget = .error .budgetSpent ↔ ∃ s', Hops (Expands d q) [s] s' (budget + 1) := by
  fun_induction run d q s budget with
  | case1 budget s hdrop =>
    refine iff_of_false (by simp) ?_
    rintro ⟨s', hs'⟩
    obtain ⟨s₁, ⟨o, rest, hdrop', -⟩, -⟩ := hops_succ_iff_head.mp hs'
    rw [hdrop] at hdrop'
    cases hdrop'
  | case2 budget s o rest hdrop htarget =>
    refine iff_of_false (by simp) ?_
    rintro ⟨s', hs'⟩
    obtain ⟨s₁, ⟨o', rest', hdrop', hne, -⟩, -⟩ := hops_succ_iff_head.mp hs'
    rw [hdrop] at hdrop'
    cases hdrop'
    exact hne htarget
  | case3 s o rest hdrop hne =>
    exact iff_of_true rfl ⟨_, .hop (.start List.mem_cons_self) ⟨o, rest, hdrop, hne, rfl⟩⟩
  | case4 s o rest hdrop hne budget ih =>
    have hfirst : Expands d q s _ := ⟨o, rest, hdrop, hne, rfl⟩
    rw [ih]
    constructor
    · rintro ⟨s', hs'⟩
      exact ⟨s', hops_succ_iff_head.mpr ⟨_, hfirst, hs'⟩⟩
    · rintro ⟨s', hs'⟩
      obtain ⟨s₁, hs₁, hs'⟩ := hops_succ_iff_head.mp hs'
      exact ⟨s', hfirst.unique hs₁ ▸ hs'⟩

/-! ## Labels fall -/

/-- What the nodes that edges lead to are labelled with; a node without a label could not
be dearer. -/
def scores (d : Device) (s : Search) (i : Fin d.edges.size) : WithTop Nat :=
  (s.labels[d.edges[i].dst]?).elim ⊤ fun l => l.cost

/-- **A label that undercuts** makes the scores fall, if an edge leads to its node. -/
theorem scores_label_lt (hlt : ∀ l, s.labels[o.node]? = some l → o.cost < l.cost)
    {i : Fin d.edges.size} (hi : d.edges[i].dst = o.node) :
    (s.label o last).scores d < s.scores d := by
  have hfall : (o.cost : WithTop Nat) < (s.labels[o.node]?).elim ⊤ fun l => ↑l.cost := by
    cases hl : s.labels[o.node]? with
    | none => exact WithTop.coe_lt_top _
    | some l => exact WithTop.coe_lt_coe.mpr (hlt l hl)
  refine Pi.lt_def.mpr ⟨fun j => ?_, i, ?_⟩
  · unfold scores
    rw [getElem?_labels_label]
    split
    · rename_i hj
      rw [hj]
      exact hfall.le
    · exact le_rfl
  · unfold scores
    rw [getElem?_labels_label, if_pos hi, hi]
    exact hfall

/-- **A follow-up makes the scores fall**, or else it changes nothing. -/
theorem followUp_eq_or_lt (s : Search) (o : OpenPath) :
    followUp d q s o = s ∨ (followUp d q s o).scores d < s.scores d := by
  refine List.foldlRecOn (motive := fun x => x = s ∨ x.scores d < s.scores d)
    (d.hopsFrom o.node) _ (.inl rfl) fun x hx a ha => ?_
  rcases followHop_cases d q o.cost x a with ⟨-, hlt, heq⟩ | ⟨-, heq⟩ <;> rw [heq]
  · obtain ⟨i, hi⟩ := Device.exists_of_mem_hopsFrom ha
    have hfall : (x.label (q.openPath d a.dst _) (some a)).scores d < x.scores d :=
      scores_label_lt hlt hi
    exact .inr (hx.elim (fun hx => hx ▸ hfall) hfall.trans)
  · exact hx

/-! ## No search goes on for ever -/

/-- What is left of a search: how far the scores may still fall, and then how many paths are
open. -/
def remaining (d : Device) (s : Search) : (Fin d.edges.size → WithTop Nat) ×ₗ Nat :=
  toLex (s.scores d, s.frontier.length)

/-- A path that is taken out leaves less. -/
theorem remaining_lt_of_shorter (h : rest.length < s.frontier.length) :
    remaining d { s with frontier := rest } < s.remaining d :=
  Prod.Lex.toLex_lt_toLex.mpr (.inr ⟨rfl, h⟩)

/-- **A path that is taken out and followed up** leaves less. -/
theorem remaining_followUp_lt (h : rest.length < s.frontier.length) :
    remaining d (followUp d q { s with frontier := rest } o) < s.remaining d := by
  rcases followUp_eq_or_lt (d := d) (q := q) { s with frontier := rest } o with heq | hlt
  · rw [heq]
    exact remaining_lt_of_shorter h
  · exact Prod.Lex.toLex_lt_toLex.mpr (.inl hlt)

theorem Expands.remaining_lt (h : Expands d q s s') : s'.remaining d < s.remaining d := by
  obtain ⟨o, rest, hdrop, -, rfl⟩ := h
  refine remaining_followUp_lt ?_
  have hsub := (sublist_of_dropWhile hdrop).length_le
  rwa [List.length_cons] at hsub

/-- **Only so many expansions can be made.** -/
theorem exists_expanded_le (d : Device) (q : PathQuery) :
    ∃ most, ∀ s n, Expanded d q s n → n ≤ most := by
  have hwf : WellFounded fun s' s => Expands d q s s' :=
    Subrelation.wf (fun h => h.remaining_lt) (InvImage.wf (Search.remaining d) wellFounded_lt)
  exact exists_hops_le hwf Expands.unique _

end Search

end HoldMargin
