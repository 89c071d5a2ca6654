import HoldMargin.Device.Validity
import Mathlib.Logic.Basic
/-!
# Tables that fit together

The tables of a device are lists of records that name each other. They fit
together (`Device.Coherent`) if every record stands at the position of its
own identifier and every identifier that a record mentions is that of a
record. This is said of the records alone; that it is what `Device.validate`
accepts is `validate_eq_ok_iff_coherent`.

The positions are what ties the two: once a table is in place, an identifier
is that of a record exactly if it lies within the table
(`InPlace.names_iff`), and this is all that a look-up sees.
-/

namespace HoldMargin

section Tables

variable {α : Type} {t : Table} {id : α → TableId t} {entries : Array α} {i : TableId t}

/-- A table whose entries stand at the positions of their identifiers. -/
def InPlace (id : α → TableId t) (entries : Array α) : Prop :=
  ∀ (k : Nat) (h : k < entries.size), (id entries[k]).index = k

/-- Whether an identifier is that of an entry. -/
def Names (id : α → TableId t) (entries : Array α) (i : TableId t) : Prop :=
  ∃ e ∈ entries, id e = i

/-- An entry of a table that is in place is found under its identifier. -/
theorem InPlace.getElem?_id (h : InPlace id entries) {e : α} (he : e ∈ entries) :
    entries[(id e).index]? = some e := by
  obtain ⟨k, hk, rfl⟩ := Array.mem_iff_getElem.mp he
  rw [h k hk, Array.getElem?_eq_getElem hk]

theorem InPlace.names_iff (h : InPlace id entries) :
    Names id entries i ↔ i.index < entries.size := by
  constructor
  · rintro ⟨e, he, rfl⟩
    exact (Array.getElem?_eq_some_iff.mp (h.getElem?_id he)).1
  · intro hi
    exact ⟨entries[i.index], Array.getElem_mem hi, TableId.ext_index (h i.index hi)⟩

/-- **The identifiers of a table in place ascend.** -/
theorem InPlace.pairwise_lt (h : InPlace id entries) :
    entries.toList.Pairwise fun e f => id e < id f := by
  refine List.pairwise_iff_getElem.mpr fun j k hj hk hjk => ?_
  rw [TableId.lt_iff_index, Array.getElem_toList, Array.getElem_toList, h j, h k]
  exact hjk

end Tables

namespace Device

variable {d : Device}

/-! ## The entries in their places -/

theorem findMisplaced?_eq_none_iff {t : Table} {ids : List (TableId t)} {position : Nat} :
    findMisplaced? position ids = none ↔
      ∀ (k : Nat) (h : k < ids.length), ids[k].index = position + k := by
  induction ids generalizing position with
  | nil => simp [findMisplaced?]
  | cons i ids ih =>
    rw [findMisplaced?]
    split
    · rename_i hi
      rw [ih]
      constructor
      · rintro h (_ | k) hk
        · exact hi
        · rw [List.getElem_cons_succ, h k (Nat.lt_of_succ_lt_succ hk)]
          omega
      · intro h k hk
        have hnext := h (k + 1) (Nat.succ_lt_succ hk)
        rw [List.getElem_cons_succ] at hnext
        omega
    · rename_i hi
      exact iff_of_false nofun fun h => hi (h 0 (Nat.succ_pos _))

/-- No identifier is reported exactly if the table is in place. -/
theorem findMisplaced?_map_eq_none_iff {α : Type} {t : Table} {id : α → TableId t}
    {entries : Array α} :
    findMisplaced? 0 (entries.toList.map id) = none ↔ InPlace id entries := by
  simp [findMisplaced?_eq_none_iff, InPlace]

/-! ## The references -/

/-- A site without a fault refers to entries within the tables. -/
theorem siteFault?_eq_none_iff {s : Site} :
    d.siteFault? s = none ↔ s.tile.index < d.tiles.size ∧
      ∀ next ∈ s.carrySuccessor, next.index < d.sites.size := by
  unfold siteFault?
  cases s.carrySuccessor <;> simp [tile?, site?, ite_eq_iff]

theorem nodeFault?_eq_none_iff {n : Node} :
    d.nodeFault? n = none ↔ n.tile.index < d.tiles.size := by
  simp [nodeFault?, tile?]

theorem edgeFault?_eq_none_iff {e : Edge} :
    d.edgeFault? e = none ↔ e.src.index < d.nodes.size ∧ e.dst.index < d.nodes.size := by
  simp [edgeFault?, node?, ite_eq_iff]

theorem bindingFault?_eq_none_iff {b : PinBinding} :
    d.bindingFault? b = none ↔
      b.pin.site.index < d.sites.size ∧ b.node.index < d.nodes.size := by
  simp [bindingFault?, site?, node?, ite_eq_iff]

/-- **A device whose tables fit together**: every entry stands at the position of
its identifier, and whatever an entry refers to is there. -/
structure Coherent (d : Device) : Prop where
  tilesInPlace : InPlace Tile.id d.tiles
  sitesInPlace : InPlace Site.id d.sites
  nodesInPlace : InPlace Node.id d.nodes
  edgesInPlace : InPlace Edge.id d.edges
  tileOfSite : ∀ s ∈ d.sites, Names Tile.id d.tiles s.tile
  carrySuccessor : ∀ s ∈ d.sites, ∀ next ∈ s.carrySuccessor, Names Site.id d.sites next
  tileOfNode : ∀ n ∈ d.nodes, Names Tile.id d.tiles n.tile
  endsOfEdge : ∀ e ∈ d.edges, Names Node.id d.nodes e.src ∧ Names Node.id d.nodes e.dst
  endsOfBinding : ∀ b ∈ d.pinBindings,
    Names Site.id d.sites b.pin.site ∧ Names Node.id d.nodes b.node

theorem validate_eq_ok : d.validate = .ok () ↔ d.fault? = none := by
  unfold validate
  cases d.fault? <;> simp

/-- **The devices that are accepted** are those whose tables fit together. -/
theorem validate_eq_ok_iff_coherent : d.validate = .ok () ↔ d.Coherent := by
  rw [validate_eq_ok]
  unfold fault?
  simp only [Option.orElse_eq_orElse, Option.orElse_eq_or, Option.or_eq_none_iff,
    findMisplaced?_map_eq_none_iff, List.findSome?_eq_none_iff, Array.mem_toList_iff,
    siteFault?_eq_none_iff, nodeFault?_eq_none_iff, edgeFault?_eq_none_iff,
    bindingFault?_eq_none_iff]
  constructor
  · rintro ⟨htiles, hsites, hnodes, hedges, hsite, hnode, hedge, hbinding⟩
    refine ⟨htiles, hsites, hnodes, hedges, fun s hs => ?_, fun s hs next hnext => ?_,
      fun n hn => ?_, fun e he => ?_, fun b hb => ?_⟩
    · exact htiles.names_iff.mpr (hsite s hs).1
    · exact hsites.names_iff.mpr ((hsite s hs).2 next hnext)
    · exact htiles.names_iff.mpr (hnode n hn)
    · exact (hedge e he).imp hnodes.names_iff.mpr hnodes.names_iff.mpr
    · exact (hbinding b hb).imp hsites.names_iff.mpr hnodes.names_iff.mpr
  · intro h
    refine ⟨h.tilesInPlace, h.sitesInPlace, h.nodesInPlace, h.edgesInPlace,
      fun s hs => ⟨?_, fun next hnext => ?_⟩, fun n hn => ?_, fun e he => ?_, fun b hb => ?_⟩
    · exact h.tilesInPlace.names_iff.mp (h.tileOfSite s hs)
    · exact h.sitesInPlace.names_iff.mp (h.carrySuccessor s hs next hnext)
    · exact h.tilesInPlace.names_iff.mp (h.tileOfNode n hn)
    · exact (h.endsOfEdge e he).imp h.nodesInPlace.names_iff.mp h.nodesInPlace.names_iff.mp
    · exact (h.endsOfBinding b hb).imp h.sitesInPlace.names_iff.mp h.nodesInPlace.names_iff.mp

end Device

end HoldMargin
