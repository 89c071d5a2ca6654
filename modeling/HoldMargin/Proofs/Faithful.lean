import HoldMargin.Proofs.Indexed
import Mathlib.Data.List.Induction
/-!
# An index that answers as the tables do

Queries go through the index: which edges leave or enter a node, which edge
leads from a node to another, what node a pin is wired to. An index is faithful
(`Device.Faithful`) if every answer is the one that could be read off the tables
of edges and bindings. The index made from the tables of an accepted device is
faithful (`Device.Coherent.faithful_reindex`).

The lists at a node are stretches of the table of edges in its order
(`complete_indexOfTables`). As the table is in place its identifiers ascend, so
the lists ascend too, and the first edge that a search through a list meets is
the least of those it could find.
-/

namespace HoldMargin

section Search

variable {t : Table} {p : TableId t → Bool} {ids : List (TableId t)} {i : TableId t}

/-- **The first identifier found in an ascending list** is the least of those that
could be found. -/
theorem find?_eq_some_iff_of_ascending (h : ids.Pairwise (· < ·)) :
    ids.find? p = some i ↔ (i ∈ ids ∧ p i) ∧ ∀ j ∈ ids, p j → i.index ≤ j.index := by
  have hleast : ∀ {i}, ids.find? p = some i → ∀ j ∈ ids, p j → i.index ≤ j.index := by
    intro i hi j hj hpj
    obtain ⟨-, before, after, rfl, hbefore⟩ := List.find?_eq_some_iff_append.mp hi
    rcases List.mem_append.mp hj with hj | hj
    · exact absurd hpj (by simpa using hbefore j hj)
    · rcases List.mem_cons.mp hj with rfl | hj
      · exact Nat.le_refl _
      · have hafter := (List.pairwise_append.mp h).2.1
        exact Nat.le_of_lt (TableId.lt_iff_index.mp ((List.pairwise_cons.mp hafter).1 j hj))
  constructor
  · intro hi
    exact ⟨⟨List.mem_of_find?_eq_some hi, List.find?_some hi⟩, hleast hi⟩
  · rintro ⟨⟨hi, hpi⟩, hmin⟩
    obtain ⟨k, hk⟩ := Option.isSome_iff_exists.mp (List.find?_isSome.mpr ⟨i, hi, hpi⟩)
    have hik := hmin k (List.mem_of_find?_eq_some hk) (List.find?_some hk)
    rw [hk, Option.some.injEq]
    exact TableId.ext_index (Nat.le_antisymm (hleast hk i hi hpi) hik)

end Search

namespace Device

variable {d : Device} {tip : Edge → NodeId} {n : NodeId} {i : EdgeId}

/-! ## Lists of edges -/

/-- The edges listed are those with their `tip` at a node: each once, in ascending
order. -/
structure ListsAt (d : Device) (tip : Edge → NodeId) (n : NodeId) (ids : List EdgeId) : Prop where
  ascending : ids.Pairwise (· < ·)
  mem_iff : ∀ i, i ∈ ids ↔ ∃ e ∈ d.edges, e.id = i ∧ tip e = n

theorem mem_edgesAt {es : List Edge} :
    i ∈ edgesAt tip es n ↔ ∃ e ∈ es, e.id = i ∧ tip e = n := by
  simp only [edgesAt, List.mem_map, List.mem_filter, decide_eq_true_eq]
  exact exists_congr fun e => by rw [and_assoc, and_comm (a := tip e = n)]

/-- **A table of edges in place gives ascending lists.** -/
theorem Coherent.listsAt_edgesAt (h : d.Coherent) (tip : Edge → NodeId) (n : NodeId) :
    d.ListsAt tip n (edgesAt tip d.edges.toList n) where
  ascending := List.pairwise_map.mpr (h.edgesInPlace.pairwise_lt.filter _)
  mem_iff i := by simp only [mem_edgesAt, Array.mem_toList_iff]

/-! ## Edges between two nodes -/

/-- Whether an identifier is that of an edge from `a` to `b`. -/
def Joins (d : Device) (a b : NodeId) (i : EdgeId) : Prop :=
  ∃ e ∈ d.edges, e.id = i ∧ e.src = a ∧ e.dst = b

/-- The edge of an identifier, met on the way from a node, is one that joins. -/
theorem Coherent.joins_iff (h : d.Coherent) {a b : NodeId} {ids : List EdgeId}
    (hids : d.ListsAt Edge.src a ids) :
    d.Joins a b i ↔ i ∈ ids ∧ (d.edge? i).any (·.dst = b) := by
  rw [hids.mem_iff]
  constructor
  · rintro ⟨e, he, rfl, ha, hb⟩
    refine ⟨⟨e, he, rfl, ha⟩, ?_⟩
    rw [edge?, h.edgesInPlace.getElem?_id he]
    simpa using hb
  · rintro ⟨⟨e, he, rfl, ha⟩, hb⟩
    rw [edge?, h.edgesInPlace.getElem?_id he] at hb
    exact ⟨e, he, rfl, ha, by simpa using hb⟩

/-! ## Pins -/

/-- Whether the last binding of a pin is to `n`: the pin is not bound again after
it. -/
def LastBinds (bs : List PinBinding) (pin : SitePin) (n : NodeId) : Prop :=
  ∃ before after, bs = before ++ ⟨pin, n⟩ :: after ∧ ∀ b ∈ after, b.pin ≠ pin

theorem lastBinds_concat {bs : List PinBinding} {b : PinBinding} {pin : SitePin} :
    LastBinds (bs ++ [b]) pin n ↔ if b.pin = pin then b.node = n else LastBinds bs pin n := by
  constructor
  · rintro ⟨before, after, heq, hafter⟩
    rcases List.eq_nil_or_concat after with rfl | ⟨rest, c, rfl⟩
    · obtain ⟨-, rfl⟩ := List.append_singleton_inj.mp heq
      rw [if_pos rfl]
    · rw [List.concat_eq_append, ← List.cons_append, ← List.append_assoc] at heq
      obtain ⟨rfl, rfl⟩ := List.append_singleton_inj.mp heq
      rw [if_neg (hafter _ (by simp))]
      exact ⟨before, rest, rfl, fun b hb => hafter b (by simp [hb])⟩
  · split
    · rintro rfl
      rename_i hpin
      subst hpin
      exact ⟨bs, [], rfl, by simp⟩
    · rename_i hpin
      rintro ⟨before, after, rfl, hafter⟩
      refine ⟨before, after ++ [b], by simp, fun c hc => ?_⟩
      rcases List.mem_append.mp hc with hc | hc
      · exact hafter c hc
      · rw [List.mem_singleton.mp hc]
        exact hpin

theorem getElem?_nodesOfPins_concat {bs : List PinBinding} {b : PinBinding} {pin : SitePin} :
    (nodesOfPins (bs ++ [b]))[pin]? =
      if b.pin = pin then some b.node else (nodesOfPins bs)[pin]? := by
  simp [nodesOfPins, Std.TreeMap.getElem?_insert]

/-- **Pins that are bound one after the other** end up where they were last
bound. -/
theorem nodesOfPins_eq_some_iff {bs : List PinBinding} {pin : SitePin} :
    (nodesOfPins bs)[pin]? = some n ↔ LastBinds bs pin n := by
  induction bs using List.reverseRecOn with
  | nil => simp [nodesOfPins, LastBinds]
  | append_singleton bs b ih =>
    rw [lastBinds_concat, getElem?_nodesOfPins_concat]
    split
    · rw [Option.some.injEq]
    · exact ih

theorem nodesOfPins_eq_none_iff {bs : List PinBinding} {pin : SitePin} :
    (nodesOfPins bs)[pin]? = none ↔ ∀ b ∈ bs, b.pin ≠ pin := by
  induction bs using List.reverseRecOn with
  | nil => simp [nodesOfPins]
  | append_singleton bs b ih =>
    rw [getElem?_nodesOfPins_concat]
    split
    · rename_i hpin
      exact iff_of_false (Option.some_ne_none _) fun h => h b (by simp) hpin
    · rename_i hpin
      rw [ih, List.forall_mem_append, List.forall_mem_singleton]
      exact (and_iff_left hpin).symm

/-! ## The whole index -/

/-- **A device that is queried as its tables say.** -/
structure Faithful (d : Device) : Prop where
  downhill : ∀ n, d.ListsAt Edge.src n (d.downhill n)
  uphill : ∀ n, d.ListsAt Edge.dst n (d.uphill n)
  /-- Of several edges between two nodes the least is found. -/
  edgeBetween_some : ∀ a b i, d.edgeBetween? a b = some i ↔
    d.Joins a b i ∧ ∀ j, d.Joins a b j → i.index ≤ j.index
  edgeBetween_none : ∀ a b, d.edgeBetween? a b = none ↔ ∀ i, ¬ d.Joins a b i
  pinNode_some : ∀ pin n, d.pinNode? pin = some n ↔ LastBinds d.pinBindings.toList pin n
  pinNode_none : ∀ pin, d.pinNode? pin = none ↔ ∀ b ∈ d.pinBindings, b.pin ≠ pin

/-- **A device fit for use is queried as its tables say.** -/
theorem Ready.faithful (hd : d.Ready) : d.Faithful := by
  have hcomplete := complete_indexOfTables hd.valid
  have hindex : d.indexOfTables = d.index := congrArg Device.index hd.indexed
  rw [hindex] at hcomplete
  obtain ⟨hdown, hup⟩ := hcomplete
  have hdownhill : ∀ n, d.ListsAt Edge.src n (d.downhill n) := by
    intro n
    rw [downhill_eq, hdown n]
    exact hd.coherent.listsAt_edgesAt Edge.src n
  have huphill : ∀ n, d.ListsAt Edge.dst n (d.uphill n) := by
    intro n
    rw [uphill_eq, hup n]
    exact hd.coherent.listsAt_edgesAt Edge.dst n
  refine ⟨hdownhill, huphill, fun a b i => ?_, fun a b => ?_, fun pin n => ?_, fun pin => ?_⟩
  · simp only [hd.coherent.joins_iff (hdownhill a)]
    rw [edgeBetween?, find?_eq_some_iff_of_ascending (hdownhill a).ascending]
    simp only [and_imp]
  · simp only [hd.coherent.joins_iff (hdownhill a), not_and]
    exact List.find?_eq_none
  · rw [pinNode?, ← hindex, pinNodes_indexOfTables]
    exact nodesOfPins_eq_some_iff
  · rw [pinNode?, ← hindex, pinNodes_indexOfTables, nodesOfPins_eq_none_iff]
    simp only [Array.mem_toList_iff]

/-- **What is accepted, and how it is then queried:** the devices that are accepted
are those whose tables fit together, and such a device, with its index made from
the tables, is queried as they say. -/
theorem validate_iff_coherent_and_faithful_reindex (d : Device) :
    (d.validate = .ok () ↔ d.Coherent) ∧ (d.validate = .ok () → d.reindex.Faithful) :=
  ⟨validate_eq_ok_iff_coherent, fun h => (ready_reindex h).faithful⟩

/-- Two edges from one node to another, one back, and a pin that is bound twice. -/
def sideBySide : Device := build "d" [
  .addTile "INT" 0 0 .interconnect ⟨0, 0⟩,
  .addSite "S" (.ofIndex 0),
  .addNode "a" (.ofIndex 0) .single none,
  .addNode "b" (.ofIndex 0) .long (some 6),
  .addEdge (.ofIndex 0) (.ofIndex 1),
  .addEdge (.ofIndex 1) (.ofIndex 0),
  .addEdge (.ofIndex 0) (.ofIndex 1),
  .bindPin ⟨.ofIndex 0, "A"⟩ (.ofIndex 0),
  .bindPin ⟨.ofIndex 0, "A"⟩ (.ofIndex 1)]

/-- The device is accepted, the first of its two edges is found, and its pin is
where it was bound last. -/
theorem sideBySide_faithful :
    sideBySide.validate = .ok () ∧ sideBySide.Coherent ∧ sideBySide.reindex.Faithful ∧
      sideBySide.reindex.downhill (.ofIndex 0) = [.ofIndex 0, .ofIndex 2] ∧
      sideBySide.reindex.edgeBetween? (.ofIndex 0) (.ofIndex 1) = some (.ofIndex 0) ∧
      sideBySide.reindex.pinNode? ⟨.ofIndex 0, "A"⟩ = some (.ofIndex 1) := by
  have hvalid : sideBySide.validate = .ok () := validate_eq_ok.mpr (by decide +kernel)
  obtain ⟨haccepted, hfaithful⟩ := validate_iff_coherent_and_faithful_reindex sideBySide
  refine ⟨hvalid, haccepted.mp hvalid, hfaithful hvalid, ?_, ?_, ?_⟩ <;> decide +kernel

end Device

end HoldMargin
