import HoldMargin.Proofs.Listed
import Mathlib.Algebra.Order.Ring.Nat
/-!
# The path a search finds

A label either belongs to a source or was made by a hop that may be taken,
from a node whose own label is cheaper by what the hop costs
(`Search.Labelled`). A label that is replaced is replaced by a cheaper one, so
what a hop started from stays known at its cost, and the invariant lasts.
Following the labels back, costs go down, so the way ends at a source and passes
no node twice: the path a search finds is a simple one, it enters only nodes
that may be entered (`PathQuery.search_eq_ok`), and it costs no more than its
label says.

What every follow-up keeps holds where a search stops (`Search.run_rule`).
-/

namespace HoldMargin

variable {d : Device} {q : PathQuery}

namespace Device

/-- What a path costs: what it costs to enter its nodes. -/
def pathCost (d : Device) (is : List EdgeId) : Nat := ((d.entered is).map d.entryCost).sum

@[simp] theorem pathCost_nil : d.pathCost [] = 0 := rfl

theorem pathCost_cons {i : EdgeId} {e : Edge} {is : List EdgeId} (he : d.edge? i = some e) :
    d.pathCost (i :: is) = d.entryCost e.dst + d.pathCost is := by
  simp [pathCost, entered_cons he]

theorem pathCost_append (is js : List EdgeId) :
    d.pathCost (is ++ js) = d.pathCost is + d.pathCost js := by
  simp [pathCost, entered_append]

/-- Every hop costs something. -/
theorem entryCost_pos (d : Device) (n : NodeId) : 0 < d.entryCost n := by
  unfold entryCost
  omega

end Device

theorem PathQuery.mayEnter_iff {n : NodeId} :
    q.mayEnter n ↔ n ∉ q.sources ∧ (n = q.target ∨ q.isClosed n = false) := by
  simp [mayEnter]

namespace Search

variable {s : Search} {o : OpenPath} {last : Option Arc} {n : NodeId} {l : PathLabel} {a : Arc}

theorem mem_enqueue {x : OpenPath} {os : List OpenPath} : x ∈ enqueue o os ↔ x = o ∨ x ∈ os := by
  induction os with
  | nil => simp [enqueue]
  | cons v vs ih =>
    rw [enqueue]
    split
    · simp
    · simp only [List.mem_cons, ih]
      grind

theorem getElem?_labels_label :
    (s.label o last).labels[n]? =
      if n = o.node then some { cost := o.cost, last } else s.labels[n]? := by
  unfold label
  rw [Std.TreeMap.getElem?_insert]
  by_cases h : n = o.node
  · subst h
    simp
  · have hne : compare o.node n ≠ .eq := fun he => h (Std.LawfulEqOrd.eq_of_compare he).symm
    simp [h, hne]

/-- A hop that a path may take. -/
def IsHop (d : Device) (q : PathQuery) (a : Arc) : Prop :=
  q.mayEnter a.dst ∧ ∃ e, d.edge? a.edge = some e ∧ e.src = a.src ∧ e.dst = a.dst

/-- There is a path to a node that costs no more than `cost`. -/
def Knows (s : Search) (n : NodeId) (cost : Nat) : Prop :=
  ∃ l, s.labels[n]? = some l ∧ l.cost ≤ cost

/-- **What the labels of a search say.** -/
structure Labelled (d : Device) (q : PathQuery) (s : Search) : Prop where
  source : ∀ n l, s.labels[n]? = some l → l.last = none → n ∈ q.sources
  hop : ∀ n l a, s.labels[n]? = some l → l.last = some a →
    a.dst = n ∧ IsHop d q a ∧ ∃ c, s.Knows a.src c ∧ c + d.entryCost n ≤ l.cost
  opened : ∀ o ∈ s.frontier, s.Knows o.node o.cost

theorem Knows.mono {cost cost' : Nat} (h : s.Knows n cost) (hle : cost ≤ cost') :
    s.Knows n cost' :=
  h.imp fun _ hl => ⟨hl.1, Nat.le_trans hl.2 hle⟩

/-- Labels get cheaper only. -/
theorem Knows.label (hle : ∀ l, s.labels[o.node]? = some l → o.cost ≤ l.cost) {cost : Nat}
    (h : s.Knows n cost) : (s.label o last).Knows n cost := by
  obtain ⟨l, hl, hc⟩ := h
  by_cases hn : n = o.node
  · subst hn
    exact ⟨_, by rw [getElem?_labels_label, if_pos rfl], Nat.le_trans (hle l hl) hc⟩
  · exact ⟨l, by rw [getElem?_labels_label, if_neg hn, hl], hc⟩

/-- **A cheaper label may be set**, on a source or at the end of a hop. -/
theorem Labelled.label (h : s.Labelled d q)
    (hle : ∀ l, s.labels[o.node]? = some l → o.cost ≤ l.cost)
    (hsource : last = none → o.node ∈ q.sources)
    (hhop : ∀ a, last = some a → a.dst = o.node ∧ IsHop d q a ∧
      ∃ c, s.Knows a.src c ∧ c + d.entryCost o.node ≤ o.cost) :
    (s.label o last).Labelled d q := by
  constructor
  · intro n l hl hlast
    rw [getElem?_labels_label] at hl
    split at hl
    · rename_i hn
      cases hl
      exact hn ▸ hsource hlast
    · exact h.source n l hl hlast
  · intro n l a hl hlast
    have hfrom : a.dst = n ∧ IsHop d q a ∧ ∃ c, s.Knows a.src c ∧ c + d.entryCost n ≤ l.cost := by
      rw [getElem?_labels_label] at hl
      split at hl
      · rename_i hn
        cases hl
        exact hn ▸ hhop a hlast
      · exact h.hop n l a hl hlast
    obtain ⟨hdst, hmay, c, hc, hlt⟩ := hfrom
    exact ⟨hdst, hmay, c, hc.label hle, hlt⟩
  · intro x hx
    rcases mem_enqueue.mp hx with rfl | hx
    · exact ⟨_, by rw [getElem?_labels_label, if_pos rfl], Nat.le_refl _⟩
    · exact (h.opened x hx).label hle

theorem labelled_start : (start d q).Labelled d q := by
  refine List.foldlRecOn q.sources.toList _ ⟨?_, ?_, ?_⟩ fun s h n hn => h.label ?_ ?_ ?_
  · intro n l hl
    simp at hl
  · intro n l a hl
    simp at hl
  · intro o ho
    cases ho
  · exact fun l _ => Nat.zero_le _
  · exact fun _ => hn
  · exact fun a ha => nomatch ha

/-- **What following a hop does:** it sets a label that is cheaper, on a node that may be
entered, or nothing. -/
theorem followHop_cases (d : Device) (q : PathQuery) (cost : Nat) (s : Search) (a : Arc) :
    (q.mayEnter a.dst ∧ (∀ l, s.labels[a.dst]? = some l → cost + d.entryCost a.dst < l.cost) ∧
      followHop d q cost s a = s.label (q.openPath d a.dst (cost + d.entryCost a.dst)) (some a)) ∨
    ((q.mayEnter a.dst → s.Knows a.dst (cost + d.entryCost a.dst)) ∧
      followHop d q cost s a = s) := by
  unfold followHop
  dsimp only
  split
  · rename_i hif
    rw [Bool.and_eq_true] at hif
    refine .inl ⟨hif.1, fun l hl => ?_, rfl⟩
    have hlow := hif.2
    simpa only [undercuts, hl, Option.all_some, decide_eq_true_eq] using hlow
  · rename_i hif
    refine .inr ⟨fun hmay => ?_, rfl⟩
    rw [hmay, Bool.true_and, Bool.not_eq_true] at hif
    cases hl : s.labels[a.dst]? with
    | none => simp [undercuts, hl] at hif
    | some l => exact ⟨l, hl, by simpa [undercuts, hl] using hif⟩

/-- **What every cheaper label keeps** holds when hops have been followed. -/
theorem hops_rule {P : Search → Prop} {cost : Nat} {as : List Arc} (hs : P s)
    (hlabel : ∀ s, ∀ a ∈ as, q.mayEnter a.dst →
      (∀ l, s.labels[a.dst]? = some l → cost + d.entryCost a.dst ≤ l.cost) → P s →
      P (s.label (q.openPath d a.dst (cost + d.entryCost a.dst)) (some a))) :
    P (as.foldl (followHop d q cost) s) := by
  refine List.foldlRecOn as _ hs fun s h a ha => ?_
  rcases followHop_cases d q cost s a with ⟨hmay, hlt, heq⟩ | ⟨-, heq⟩ <;> rw [heq]
  · exact hlabel s a ha hmay (fun l hl => Nat.le_of_lt (hlt l hl)) h
  · exact h

/-- **A follow-up keeps the labels right.** -/
theorem Labelled.followUp (hd : d.Ready) (h : s.Labelled d q) (hknown : s.Knows o.node o.cost) :
    (s.followUp d q o).Labelled d q := by
  -- that the node is known goes along, for each hop is followed from it
  refine (hops_rule (P := fun s => s.Labelled d q ∧ s.Knows o.node o.cost) ⟨h, hknown⟩ ?_).1
  rintro s a ha hmay hle ⟨h, hknown⟩
  obtain ⟨hsrc, e, he, hes, hed⟩ := hd.mem_hopsFrom ha
  refine ⟨h.label hle (fun h => nomatch h) fun b hb => ?_, hknown.label hle⟩
  cases hb
  exact ⟨rfl, ⟨hmay, e, he, hes.trans hsrc.symm, hed⟩, o.cost, hsrc ▸ hknown, Nat.le_refl _⟩

/-! ## Following the labels back -/

/-- **The way the labels lead to a node**: a simple path from a source, by
hops that may be taken, that costs `cost` at most. It is known how to come to any of
its nodes at that cost. -/
structure Follows (d : Device) (q : PathQuery) (s : Search) (source : NodeId) (is : List EdgeId)
    (n : NodeId) (cost : Nat) : Prop where
  from_source : source ∈ q.sources
  path : d.IsPath source is n
  nodup : (source :: d.entered is).Nodup
  may_enter : ∀ m ∈ d.entered is, q.mayEnter m
  known : ∀ m ∈ source :: d.entered is, s.Knows m cost
  cost_le : d.pathCost is ≤ cost

/-- The way to a node may go on by a hop to a node that is only known to cost that
much more. -/
theorem Follows.snoc {source : NodeId} {is : List EdgeId} {cost : Nat}
    (h : s.Follows d q source is a.src cost) (ha : IsHop d q a)
    (hl : s.labels[a.dst]? = some l) (hle : cost + d.entryCost a.dst ≤ l.cost) :
    s.Follows d q source (is ++ [a.edge]) a.dst l.cost := by
  obtain ⟨hmay, e, he, hsrc, hdst⟩ := ha
  have hent : d.entered (is ++ [a.edge]) = d.entered is ++ [a.dst] := by
    rw [Device.entered_append, Device.entered_cons he, Device.entered_nil, hdst]
  have hpos := d.entryCost_pos a.dst
  -- all nodes on the way cost less than the new one is known to cost
  have hnew : a.dst ∉ source :: d.entered is := by
    intro hmem
    obtain ⟨l', hl', hl'c⟩ := h.known _ hmem
    rw [hl, Option.some.injEq] at hl'
    subst hl'
    omega
  refine ⟨h.from_source, hdst ▸ Device.IsPath.snoc (hsrc ▸ h.path) he, ?_, ?_, ?_, ?_⟩
  · rw [hent, ← List.cons_append, List.nodup_append]
    refine ⟨h.nodup, by simp, ?_⟩
    rintro m hm x hx rfl
    rw [List.mem_singleton] at hx
    exact hnew (hx ▸ hm)
  · intro m hm
    rw [hent] at hm
    rcases List.mem_append.mp hm with hm | hm
    · exact h.may_enter m hm
    · rw [List.mem_singleton] at hm
      exact hm ▸ hmay
  · intro m hm
    rw [hent, ← List.cons_append] at hm
    rcases List.mem_append.mp hm with hm | hm
    · exact (h.known m hm).mono (by omega)
    · rw [List.mem_singleton] at hm
      exact ⟨l, hm ▸ hl, Nat.le_refl _⟩
  · rw [Device.pathCost_append, Device.pathCost_cons he, Device.pathCost_nil, hdst]
    have := h.cost_le
    omega

/-- A bound on the cost may be raised. -/
theorem Follows.mono {source : NodeId} {is : List EdgeId} {cost cost' : Nat}
    (h : s.Follows d q source is n cost) (hle : cost ≤ cost') : s.Follows d q source is n cost' where
  from_source := h.from_source
  path := h.path
  nodup := h.nodup
  may_enter := h.may_enter
  known m hm := (h.known m hm).mono hle
  cost_le := Nat.le_trans h.cost_le hle

/-- How many labels are cheaper than `cost`. -/
def cheaper (s : Search) (cost : Nat) : Nat := s.labels.toList.countP fun x => x.2.cost < cost

theorem cheaper_le_size (cost : Nat) : s.cheaper cost ≤ s.labels.size := by
  rw [← Std.TreeMap.length_toList]
  exact List.countP_le_length

/-- There is a label of a lower cost less below that cost. -/
theorem cheaper_lt (cost : Nat) (hl : s.labels[n]? = some l) (hlt : l.cost < cost) :
    s.cheaper l.cost < s.cheaper cost := by
  unfold cheaper
  rw [List.countP_eq_length_filter, List.countP_eq_length_filter]
  have hsplit : s.labels.toList.filter (fun x => x.2.cost < l.cost) =
      (s.labels.toList.filter fun x => x.2.cost < cost).filter fun x => x.2.cost < l.cost := by
    rw [List.filter_filter]
    refine List.filter_congr fun x _ => ?_
    rw [← Bool.decide_and, decide_eq_decide]
    omega
  rw [hsplit, List.length_filter_lt_length_iff_exists]
  have hmem := Std.TreeMap.mem_toList_iff_getElem?_eq_some.mpr hl
  exact ⟨(n, l), List.mem_filter.mpr ⟨hmem, by simpa using hlt⟩, by simp⟩

/-- **Where a label comes from**: it is on a source, or else it is no less than what its last
hop costs on top of another label. -/
theorem Labelled.origin (h : s.Labelled d q) (hl : s.labels[n]? = some l) :
    n ∈ q.sources ∧ l.last = none ∨
      n ∉ q.sources ∧ ∃ a l', l.last = some a ∧ IsHop d q a ∧ a.dst = n ∧
        s.labels[a.src]? = some l' ∧ l'.cost + d.entryCost n ≤ l.cost := by
  cases hlast : l.last with
  | none => exact .inl ⟨h.source n l hl hlast, rfl⟩
  | some a =>
    obtain ⟨rfl, ha, c, ⟨l', hl', hle⟩, hcost⟩ := h.hop n l a hl hlast
    exact .inr ⟨(PathQuery.mayEnter_iff.mp ha.1).1, a, l', rfl, ha, rfl, hl', by omega⟩

/-- **What holds of the sources and goes on along each last hop** holds of every node with a
label, within as many hops as there are cheaper labels. -/
theorem Labelled.back_rule (h : s.Labelled d q) {P : NodeId → Nat → Prop}
    (hsource : ∀ n l hops, s.labels[n]? = some l → n ∈ q.sources → l.last = none → P n hops)
    (hhop : ∀ a l l' hops, s.labels[a.dst]? = some l → a.dst ∉ q.sources → l.last = some a →
      IsHop d q a → s.labels[a.src]? = some l' → l'.cost + d.entryCost a.dst ≤ l.cost →
      P a.src hops → P a.dst (hops + 1))
    {hops : Nat} (hl : s.labels[n]? = some l) (hops_le : s.cheaper l.cost ≤ hops) : P n hops := by
  induction hops generalizing n l with
  | zero =>
    rcases h.origin hl with ⟨hn, hlast⟩ | ⟨-, a, l', -, -, -, hl', hcost⟩
    · exact hsource n l 0 hl hn hlast
    · -- no label is cheaper, so this one cannot come from a hop
      have hpos := d.entryCost_pos n
      have := cheaper_lt l.cost hl' (by omega)
      omega
  | succ hops ih =>
    rcases h.origin hl with ⟨hn, hlast⟩ | ⟨hn, a, l', hlast, ha, rfl, hl', hcost⟩
    · exact hsource n l _ hl hn hlast
    · -- fewer labels are cheaper than the one it comes from
      have hpos := d.entryCost_pos a.dst
      have hfew := cheaper_lt l.cost hl' (by omega)
      exact hhop a l l' hops hl hn hlast ha hl' hcost (ih hl' (by omega))

theorem pathTo_of_last_eq_none (hl : s.labels[n]? = some l) (hlast : l.last = none)
    {rest : List EdgeId} {hops : Nat} : s.pathTo n rest hops = rest := by
  cases hops with
  | zero => rfl
  | succ hops => simp only [pathTo, hl, Option.bind_some, hlast]

theorem pathTo_of_last_eq_some (hl : s.labels[n]? = some l) (hlast : l.last = some a)
    {rest : List EdgeId} {hops : Nat} :
    s.pathTo n rest (hops + 1) = s.pathTo a.src (a.edge :: rest) hops := by
  simp only [pathTo, hl, Option.bind_some, hlast]

/-- The way to a source is empty. -/
theorem Follows.nil (hsource : n ∈ q.sources) (hl : s.labels[n]? = some l) :
    s.Follows d q n [] n l.cost where
  from_source := hsource
  path := .nil n
  nodup := by simp
  may_enter := by simp
  known := by simpa using ⟨l, hl, Nat.le_refl _⟩
  cost_le := Nat.zero_le _

/-- **The labels lead back to a source.** -/
theorem Labelled.follows_pathTo (h : s.Labelled d q) {hops : Nat} (rest : List EdgeId)
    (hl : s.labels[n]? = some l) (hops_le : s.cheaper l.cost ≤ hops) :
    ∃ source is, s.pathTo n rest hops = is ++ rest ∧ s.Follows d q source is n l.cost := by
  refine h.back_rule (P := fun n hops => ∀ rest l, s.labels[n]? = some l →
    ∃ source is, s.pathTo n rest hops = is ++ rest ∧ s.Follows d q source is n l.cost)
    ?_ ?_ hl hops_le rest l hl
  · intro n l hops hl hn hlast rest l₁ hl₁
    exact ⟨n, [], pathTo_of_last_eq_none hl hlast, .nil hn hl₁⟩
  · intro a l l' hops hl hn hlast ha hl' hcost ih rest l₁ hl₁
    obtain rfl := Option.some.inj (hl.symm.trans hl₁)
    obtain ⟨source, is, heq, hf⟩ := ih (a.edge :: rest) l' hl'
    refine ⟨source, is ++ [a.edge], ?_, hf.snoc ha hl hcost⟩
    rw [pathTo_of_last_eq_some hl hlast, heq, List.append_assoc, List.singleton_append]

/-- What is followed up next is open, and so is what stays behind. -/
theorem sublist_of_dropWhile {f : OpenPath → Bool} {rest : List OpenPath}
    (h : s.frontier.dropWhile f = o :: rest) : (o :: rest).Sublist s.frontier :=
  h ▸ List.dropWhile_sublist f

/-- **What every follow-up keeps** holds where a search stops: at a path to the target
that is followed up next, or where nothing is left to be followed up. -/
theorem run_rule {P : Search → Prop}
    (hstep : ∀ s o rest, P s → s.frontier.dropWhile s.isStale = o :: rest → o.node ≠ q.target →
      P (followUp d q { s with frontier := rest } o)) (hs : P s) (budget : Nat) :
    (∀ is, s.run d q budget = .ok is → ∃ s' o rest, P s' ∧
      s'.frontier.dropWhile s'.isStale = o :: rest ∧ o.node = q.target ∧
      is = s'.pathTo o.node [] s'.labels.size) ∧
    (s.run d q budget = .error .noPath → ∃ s', P s' ∧ s'.frontier.dropWhile s'.isStale = []) := by
  fun_induction run d q s budget with
  | case1 budget s hdrop => exact ⟨nofun, fun _ => ⟨s, hs, hdrop⟩⟩
  | case2 budget s o rest hdrop htarget =>
    refine ⟨fun is h => ?_, nofun⟩
    cases h
    exact ⟨s, o, rest, hs, hdrop, htarget, rfl⟩
  | case3 => exact ⟨nofun, nofun⟩
  | case4 s o rest hdrop hne budget ih => exact ih (hstep s o rest hs hdrop hne)

theorem Labelled.step (hd : d.Ready) (h : s.Labelled d q) {rest : List OpenPath}
    (hdrop : s.frontier.dropWhile s.isStale = o :: rest) :
    (Search.followUp d q { s with frontier := rest } o).Labelled d q := by
  have hopen := (sublist_of_dropWhile hdrop).subset
  have hrest : Labelled d q { s with frontier := rest } :=
    ⟨h.source, h.hop, fun x hx => h.opened x (hopen (List.mem_cons_of_mem _ hx))⟩
  exact hrest.followUp hd (h.opened o (hopen List.mem_cons_self))

/-- The labels lead back from a path that is followed up next, at no more than its
cost. -/
theorem Labelled.follows_next (h : s.Labelled d q) {rest : List OpenPath}
    (hdrop : s.frontier.dropWhile s.isStale = o :: rest) :
    ∃ source, s.Follows d q source (s.pathTo o.node [] s.labels.size) o.node o.cost := by
  obtain ⟨l, hl, hle⟩ := h.opened o ((sublist_of_dropWhile hdrop).subset List.mem_cons_self)
  obtain ⟨source, is, heq, hf⟩ := h.follows_pathTo [] hl (cheaper_le_size _)
  rw [heq, List.append_nil]
  exact ⟨source, hf.mono hle⟩

end Search

/-- **The path that a search finds** leads from a source to the target, passes
no node twice and enters only nodes that may be entered. -/
theorem PathQuery.search_eq_ok (hd : d.Ready) {budget : Nat} {is : List EdgeId}
    (h : q.search d budget = .ok is) :
    ∃ source ∈ q.sources, d.IsPath source is q.target ∧ (source :: d.entered is).Nodup ∧
      ∀ n ∈ d.entered is, q.mayEnter n := by
  obtain ⟨s, o, rest, hs, hdrop, htarget, rfl⟩ :=
    (Search.run_rule (P := Search.Labelled d q) (fun _ _ _ h hdrop _ => h.step hd hdrop)
      Search.labelled_start budget).1 is h
  obtain ⟨source, hf⟩ := hs.follows_next hdrop
  exact ⟨source, hf.from_source, htarget ▸ hf.path, hf.nodup, hf.may_enter⟩

end HoldMargin
