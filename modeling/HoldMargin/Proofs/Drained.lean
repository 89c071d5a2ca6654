import HoldMargin.Proofs.Carried
import Mathlib.Data.Multiset.Basic
import Mathlib.Data.Prod.Lex
/-!
# Rankings that are drained

A ranking is a list that calls take from at the front. Which list is said by its members
and its order alone, since no two members rank the same (`Ranking.Drains`). A priority
queue of which nothing is known but that it gives out the first of its members answers
every sequence of calls in the same way (`PriorityQueue.behavesAs`), so it does not matter
how a ranking is kept.
-/

namespace HoldMargin

/-! ## The order of ranked connections -/

theorem TableId.compare_eq_index {t : Table} (a b : TableId t) :
    compare a b = compare a.index b.index := by
  show compare a.raw b.raw = compare a.raw.toNat b.raw.toNat
  simp only [compare, compareOfLessAndEq, UInt32.lt_iff_toNat_lt, ← UInt32.toNat_inj]

namespace Ranked

/-- What a connection is ranked by: its length, and then its net, its sink and its driver. -/
def rank (c : Ranked) : Nat ×ₗ Nat ×ₗ Nat ×ₗ Nat :=
  toLex (c.length, toLex (c.net.index, toLex (c.sink.index, c.driver.index)))

theorem notLonger_iff {a b : Ranked} : a.notLonger b ↔ a.rank ≤ b.rank := by
  have hcompare : compare a b = (compare a.length b.length).then ((compare a.net b.net).then
      ((compare a.sink b.sink).then (compare a.driver b.driver))) := rfl
  rw [notLonger, hcompare]
  simp only [Ordering.isLE_then_iff_or, TableId.compare_eq_index, Nat.compare_eq_lt,
    Nat.compare_eq_eq, Nat.isLE_compare, rank, Prod.Lex.toLex_le_toLex]

/-- **No two connections rank the same.** -/
theorem eq_of_rank_le {a b : Ranked} (h : a.rank ≤ b.rank) (h' : b.rank ≤ a.rank) : a = b :=
  notLonger_antisymm a b (notLonger_iff.mpr h) (notLonger_iff.mpr h')

end Ranked

/-! ## What is ranked -/

namespace MeasuredConnection

/-- A connection through the fabric with a length. -/
def IsRanked (c : MeasuredConnection) : Prop := c.isDirect = false ∧ ∃ l ∈ c.length, 0 < l

instance (c : MeasuredConnection) : Decidable c.IsRanked := inferInstanceAs (Decidable (_ ∧ _))

/-- The connection with its length, which is nothing if it has none. -/
def toRanked (c : MeasuredConnection) : Ranked where
  length := c.length.getD 0
  net := c.net
  sink := c.sink
  driver := c.driver

theorem ranked?_eq (c : MeasuredConnection) :
    c.ranked? = if c.IsRanked then some c.toRanked else none := by
  cases hl : c.length with
  | none => simp [ranked?, IsRanked, hl]
  | some l =>
    by_cases hpos : 0 < l <;> cases hd : c.isDirect <;>
      simp [ranked?, IsRanked, toRanked, hl, hd, hpos, Option.filter]

end MeasuredConnection

namespace Placement

variable (p : Placement) (axis : SkewAxis)

/-- A connection between regions that are known and differ along the axis. -/
def Crosses (c : MeasuredConnection) : Prop :=
  ∃ a ∈ p.pinRegion? c.driver, ∃ b ∈ p.pinRegion? c.sink, a.along axis ≠ b.along axis

instance (c : MeasuredConnection) : Decidable (p.Crosses axis c) :=
  inferInstanceAs (Decidable (∃ a ∈ p.pinRegion? c.driver, _))

theorem crossesRegions_iff {c : MeasuredConnection} :
    p.crossesRegions axis c.driver c.sink ↔ p.Crosses axis c := by
  unfold crossesRegions Crosses
  cases p.pinRegion? c.driver <;> cases p.pinRegion? c.sink <;> simp

theorem atRisk?_eq (c : MeasuredConnection) :
    p.atRisk? axis c = if c.IsRanked ∧ p.Crosses axis c then some c.toRanked else none := by
  unfold atRisk?
  rw [MeasuredConnection.ranked?_eq]
  by_cases hr : c.IsRanked <;> by_cases hc : p.Crosses axis c <;>
    simp [hr, hc, crossesRegions_iff, Option.filter]

end Placement

/-- The connections in the setup ranking. -/
def rankedOf (cs : List MeasuredConnection) : List Ranked :=
  (cs.filter fun c => c.IsRanked).map MeasuredConnection.toRanked

/-- The connections in the hold ranking. -/
def atRiskOf (p : Placement) (axis : SkewAxis) (cs : List MeasuredConnection) : List Ranked :=
  (cs.filter fun c => c.IsRanked ∧ p.Crosses axis c).map MeasuredConnection.toRanked

theorem filterMap_ite_some {α β : Type} (P : α → Prop) [DecidablePred P] (f : α → β)
    (xs : List α) :
    xs.filterMap (fun x => if P x then some (f x) else none) = (xs.filter fun x => P x).map f := by
  induction xs with
  | nil => rfl
  | cons x xs ih => by_cases h : P x <;> simp [h, ih]

theorem filterMap_ranked? (cs : List MeasuredConnection) :
    cs.filterMap MeasuredConnection.ranked? = rankedOf cs := by
  rw [funext MeasuredConnection.ranked?_eq, filterMap_ite_some, rankedOf]

theorem filterMap_atRisk? (p : Placement) (axis : SkewAxis) (cs : List MeasuredConnection) :
    cs.filterMap (p.atRisk? axis) = atRiskOf p axis cs := by
  rw [funext (p.atRisk?_eq axis), filterMap_ite_some, atRiskOf]

/-! ## Calls -/

namespace Ranking

/-- What a ranking can be asked. -/
inductive Call where
  /-- The first connection, which is taken out. -/
  | pop
  /-- The first connection, which stays. -/
  | peek
  /-- How many connections there are. -/
  | size
  /-- The first `k` connections, which are taken out. -/
  | top (k : Nat)

/-- What a ranking answers. -/
inductive Answer where
  | one (c : Option Ranked)
  | count (n : Nat)
  | many (cs : List Ranked)

/-- How many connections a call takes out, if there are that many. -/
def Call.taken : Call → Nat
  | pop => 1
  | peek => 0
  | size => 0
  | top k => k

/-- The answer to a call that a list gives from some position on. -/
def Call.read (order : List Ranked) (position : Nat) : Call → Answer
  | pop => .one order[position]?
  | peek => .one order[position]?
  | size => .count (order.length - position)
  | top k => .many ((order.drop position).take k)

theorem Call.read_drop (order : List Ranked) (n : Nat) (call : Call) :
    call.read (order.drop n) 0 = call.read order n := by
  cases call <;> simp [read]

section Behaves

variable {σ : Type} (step : σ → Call → Answer × σ)

/-- What is left after some calls. -/
def after (s : σ) (calls : List Call) : σ := calls.foldl (fun s call => (step s call).2) s

/-- **To behave as a list** is to answer every call as the list does from the place on to which
the calls before it have taken out what was there. -/
def BehavesAs (s : σ) (order : List Ranked) : Prop :=
  ∀ calls next, (step (after step s calls) next).1 = next.read order (calls.map Call.taken).sum

variable {step}

/-- **What answers one call as its list, and is left with the rest of it, behaves as the list.** -/
theorem behavesAs_of_step (Holds : σ → List Ranked → Prop) (hstep : ∀ s l call, Holds s l →
      (step s call).1 = call.read l 0 ∧ Holds (step s call).2 (l.drop call.taken))
    {s : σ} {order : List Ranked} (hs : Holds s order) : BehavesAs step s order := by
  intro calls next
  have hrun : Holds (after step s calls) (order.drop (calls.map Call.taken).sum) := by
    induction calls generalizing s order with
    | nil => simpa [after] using hs
    | cons call calls ih =>
      have hrest := ih (hstep s order call hs).2
      rwa [List.drop_drop] at hrest
  rw [(hstep _ _ next hrun).1, Call.read_drop]

/-- As many connections are taken out as are asked for, or as there are. -/
theorem BehavesAs.length_top {s : σ} {order : List Ranked} (h : BehavesAs step s order)
    (calls : List Call) (k : Nat) :
    ∃ cs n, (step (after step s calls) (.top k)).1 = .many cs ∧
      (step (after step s calls) .size).1 = .count n ∧ cs.length = min k n := by
  refine ⟨_, _, h calls (.top k), h calls .size, ?_⟩
  rw [List.length_take, List.length_drop]

end Behaves

/-- What a ranking answers to a call, and the ranking after it. -/
def call (r : Ranking) : Call → Answer × Ranking
  | .pop => (.one r.pop.1, r.pop.2)
  | .peek => (.one r.first?, r)
  | .size => (.count r.size, r)
  | .top k => (.many (r.takeTop k).1, (r.takeTop k).2)

theorem behavesAs (r : Ranking) : BehavesAs call r r.toList := by
  refine behavesAs_of_step (fun r l => r.toList = l) ?_ rfl
  rintro r l c rfl
  cases c <;> simp [call, pop, first?, size, takeTop, Call.read, Call.taken,
    List.head?_eq_getElem?]

end Ranking

/-! ## Priority queues -/

/-- **A priority queue** of ranked connections. Of what it is made nothing is said, only what
it holds: what it was filled with, until it gives that out, and always a member before all others
first. -/
structure PriorityQueue (before : Ranked → Ranked → Prop) where
  State : Type
  members : State → Multiset Ranked
  fill : List Ranked → State
  pop : State → Option Ranked × State
  peek? : State → Option Ranked
  size : State → Nat
  members_fill : ∀ cs, members (fill cs) = cs
  pop_none : ∀ s, (pop s).1 = none → members s = 0 ∧ members (pop s).2 = 0
  pop_some : ∀ s c, (pop s).1 = some c →
    members s = c ::ₘ members (pop s).2 ∧ ∀ c' ∈ members (pop s).2, before c c'
  peek?_eq : ∀ s, peek? s = (pop s).1
  size_eq : ∀ s, size s = (members s).card

namespace PriorityQueue

open Ranking

variable {before : Ranked → Ranked → Prop} (q : PriorityQueue before)

/-- Takes out up to `k` members one by one. -/
def drain (s : q.State) : (k : Nat) → List Ranked × q.State
  | 0 => ([], s)
  | k + 1 =>
    match q.pop s with
    | (none, s) => ([], s)
    | (some c, s) =>
      let rest := drain s k
      (c :: rest.1, rest.2)

/-- What a queue answers to a call, and what is left. -/
def call (s : q.State) : Call → Answer × q.State
  | .pop => (.one (q.pop s).1, (q.pop s).2)
  | .peek => (.one (q.peek? s), s)
  | .size => (.count (q.size s), s)
  | .top k => (.many (q.drain s k).1, (q.drain s k).2)

/-- A queue holds the members of an ordered list. -/
structure Holds (s : q.State) (l : List Ranked) : Prop where
  members : q.members s = l
  ordered : l.Pairwise before

variable {q} {s : q.State} {l : List Ranked}

/-- **What is given out is the first of the list.** -/
theorem Holds.pop [Std.Antisymm before] (h : q.Holds s l) :
    (q.pop s).1 = l.head? ∧ q.Holds (q.pop s).2 l.tail := by
  have hmembers := h.members
  cases hpop : (q.pop s).1 with
  | none =>
    obtain ⟨hnone, hrest⟩ := q.pop_none s hpop
    rw [hnone] at hmembers
    obtain rfl : l = [] := Multiset.coe_eq_zero l |>.mp hmembers.symm
    exact ⟨rfl, hrest, .nil⟩
  | some c =>
    obtain ⟨hsome, hfirst⟩ := q.pop_some s c hpop
    rw [hsome] at hmembers
    cases l with
    | nil => exact absurd hmembers Multiset.cons_ne_zero
    | cons a l =>
      obtain ⟨ha, hl⟩ := List.pairwise_cons.mp h.ordered
      rw [← Multiset.cons_coe, Multiset.cons_eq_cons] at hmembers
      rcases hmembers with ⟨rfl, hrest⟩ | ⟨hne, cs, hrest, hcs⟩
      · exact ⟨rfl, hrest, hl⟩
      · -- each of the two would come before the other
        have hca : before c a := hfirst a (hrest ▸ Multiset.mem_cons_self a cs)
        have hac : before a c := ha c (Multiset.mem_coe.mp (hcs ▸ Multiset.mem_cons_self c cs))
        exact absurd (antisymm hca hac) hne

theorem Holds.drain [Std.Antisymm before] (h : q.Holds s l) (k : Nat) :
    (q.drain s k).1 = l.take k ∧ q.Holds (q.drain s k).2 (l.drop k) := by
  induction k generalizing s l with
  | zero => exact ⟨rfl, h⟩
  | succ k ih =>
    obtain ⟨hfirst, hrest⟩ := h.pop
    rw [PriorityQueue.drain]
    generalize q.pop s = popped at hfirst hrest
    obtain ⟨c, s'⟩ := popped
    cases l with
    | nil =>
      obtain rfl : c = none := hfirst
      exact ⟨rfl, hrest⟩
    | cons a l =>
      obtain rfl : c = some a := hfirst
      obtain ⟨htake, hdrop⟩ := ih hrest
      exact ⟨by rw [List.take_succ_cons]; exact congrArg _ htake, hdrop⟩

theorem Holds.size (h : q.Holds s l) : q.size s = l.length := by
  rw [q.size_eq, h.members, Multiset.coe_card]

/-- **A priority queue that holds the members of an ordered list behaves as the list.** -/
theorem behavesAs [Std.Antisymm before] (h : q.Holds s l) : BehavesAs q.call s l := by
  refine behavesAs_of_step q.Holds ?_ h
  intro s l c h
  cases c with
  | pop =>
    obtain ⟨hfirst, hrest⟩ := h.pop
    exact ⟨by simp [call, Call.read, hfirst, List.head?_eq_getElem?],
      by simpa [call, Call.taken] using hrest⟩
  | peek => exact ⟨by simp [call, Call.read, q.peek?_eq, h.pop.1, List.head?_eq_getElem?], h⟩
  | size => exact ⟨by simp [call, Call.read, h.size], h⟩
  | top k =>
    obtain ⟨htake, hdrop⟩ := h.drain k
    exact ⟨by simp [call, Call.read, htake], hdrop⟩

/-- There is a priority queue for every total order: one that sorts its members whenever one is
asked for. -/
instance [DecidableRel before] [IsTrans Ranked before] [Std.Total before] :
    Inhabited (PriorityQueue before) where
  default := {
    State := List Ranked
    members := fun cs => cs
    fill := fun cs => cs
    pop := fun cs => ((cs.mergeSort (before · ·)).head?, (cs.mergeSort (before · ·)).tail)
    peek? := fun cs => (cs.mergeSort (before · ·)).head?
    size := List.length
    members_fill := fun _ => rfl
    pop_none := fun cs h => by
      rw [List.head?_eq_none_iff] at h
      have hnil : cs = [] := by simpa [h] using List.mergeSort_perm cs (before · ·)
      simp [hnil]
    pop_some := fun cs c h => by
      obtain ⟨rest, hrest⟩ := List.head?_eq_some_iff.mp h
      have hsorted := List.pairwise_mergeSort' before cs
      have hperm := (List.mergeSort_perm cs (before · ·)).symm
      rw [hrest] at hsorted hperm
      simp only [hrest, List.tail_cons]
      exact ⟨Multiset.coe_eq_coe.mpr hperm, fun _ => List.rel_of_pairwise_cons hsorted⟩
    peek?_eq := fun _ => rfl
    size_eq := fun _ => rfl }

end PriorityQueue

/-! ## Both rankings -/

namespace Ranking

/-- **A ranking of some connections** by an order: it is the only list of them in that order, it
answers any calls as that list, with as many as are asked for or as there are, and so does any
priority queue that is filled with them. -/
structure Drains (r : Ranking) (cs : List Ranked) (before : Ranked → Ranked → Prop) : Prop where
  order : ∀ order, r.toList = order ↔ order.Perm cs ∧ order.Pairwise before
  calls : BehavesAs call r r.toList
  top : ∀ earlier k, ∃ cs n, (call (after call r earlier) (.top k)).1 = .many cs ∧
    (call (after call r earlier) .size).1 = .count n ∧ cs.length = min k n
  queue : ∀ q : PriorityQueue before, BehavesAs q.call (q.fill cs) r.toList

theorem drains_of_pairwise {r : Ranking} {cs : List Ranked} {before : Ranked → Ranked → Prop}
    [Std.Antisymm before] (hperm : r.toList.Perm cs) (hordered : r.toList.Pairwise before) :
    r.Drains cs before where
  order order := by
    constructor
    · rintro rfl
      exact ⟨hperm, hordered⟩
    · rintro ⟨hperm', hordered'⟩
      exact (hperm.trans hperm'.symm).eq_of_pairwise (fun _ _ _ _ => antisymm) hordered hordered'
  calls := r.behavesAs
  top := r.behavesAs.length_top
  queue q := PriorityQueue.behavesAs
    ⟨(q.members_fill cs).trans (Multiset.coe_eq_coe.mpr hperm.symm), hordered⟩

instance : Std.Antisymm fun a b : Ranked => a.rank ≤ b.rank := ⟨fun _ _ => Ranked.eq_of_rank_le⟩

instance : Std.Antisymm fun a b : Ranked => b.rank ≤ a.rank :=
  ⟨fun _ _ h h' => Ranked.eq_of_rank_le h' h⟩

theorem hold_drains (p : Placement) (axis : SkewAxis) (cs : List MeasuredConnection) :
    (hold p axis cs).Drains (atRiskOf p axis cs) fun a b => a.rank ≤ b.rank := by
  refine drains_of_pairwise ?_ ?_
  · rw [← filterMap_atRisk?]
    exact List.mergeSort_perm _ _
  · exact (pairwise_hold p axis cs).imp Ranked.notLonger_iff.mp

theorem setup_drains (cs : List MeasuredConnection) :
    (setup cs).Drains (rankedOf cs) fun a b => b.rank ≤ a.rank := by
  refine drains_of_pairwise ?_ ?_
  · rw [← filterMap_ranked?]
    exact List.mergeSort_perm _ _
  · exact (pairwise_setup cs).imp Ranked.notLonger_iff.mp

/-- **The rankings of measured connections.** The hold ranking is the list of those at risk, from
the first in their order to the last, the setup ranking that of all that have a length, from the
last to the first, and calls take from these lists at the front. A report shows as many of each
as it has room for. -/
theorem rankings_drain (p : Placement) (axis : SkewAxis) (cs : List MeasuredConnection) :
    (hold p axis cs).Drains (atRiskOf p axis cs) (fun a b => a.rank ≤ b.rank) ∧
      (setup cs).Drains (rankedOf cs) (fun a b => b.rank ≤ a.rank) ∧
      ∀ (s : Settings) (m : Measurement) (es : Entries),
        (p.reportOn s m es).hold =
          ((hold p s.hold.skewAxis m.connections).toList.take s.reportSize).map p.reportLine ∧
        (p.reportOn s m es).setup =
          ((setup m.connections).toList.take s.reportSize).map p.reportLine :=
  ⟨hold_drains p axis cs, setup_drains cs, fun _ _ _ => ⟨rfl, rfl⟩⟩

end Ranking

end HoldMargin
