import HoldMargin.Search
import HoldMargin.Proofs.Coherent
import HoldMargin.Proofs.Committed
/-!
# The edges listed at a node

Routers read a device through its index and routes are read through its
tables. On a device that is valid and whose index was made from the tables
(`Device.Ready`) the two agree: every edge listed at a node leaves that
node, and is found under the identifier it is listed by
(`Ready.mem_downhill`).
-/

namespace HoldMargin

/-- **A device fit for use**: valid, with the index of its tables. -/
structure Device.Ready (d : Device) : Prop where
  valid : d.validate = .ok ()
  indexed : d.reindex = d

/-- The index of the tables is made of the tables alone. -/
theorem Device.ready_reindex {d : Device} (h : d.reindex.validate = .ok ()) : d.reindex.Ready :=
  ⟨h, rfl⟩

namespace DeviceIndex

variable {ix : DeviceIndex} {i : EdgeId} {n : NodeId}

/-- Whether the index lists an edge as leaving a node. -/
def Lists (ix : DeviceIndex) (n : NodeId) (i : EdgeId) : Prop :=
  i ∈ ix.downhill.getD n.index #[]

theorem lists_addEdge {id : EdgeId} {src dst : NodeId} (h : (ix.addEdge id src dst).Lists n i) :
    ix.Lists n i ∨ id = i ∧ src = n := by
  unfold Lists addEdge at h
  unfold Lists
  rw [Array.getD_eq_getD_getElem?] at h ⊢
  rw [Array.getElem?_modify] at h
  split at h
  · rename_i hsrc
    cases hlist : ix.downhill[n.index]? with
    | none => rw [hlist] at h; simp at h
    | some list =>
      rw [hlist] at h
      simp only [Option.map_some, Option.getD_some, Array.mem_push] at h
      rcases h with h | h
      · exact .inl h
      · exact .inr ⟨h.symm, TableId.ext_index hsrc⟩
  · exact .inl h

theorem lists_foldl_addEdge {es : List Edge}
    (h : (es.foldl (fun ix e => ix.addEdge e.id e.src e.dst) ix).Lists n i) :
    ix.Lists n i ∨ ∃ e ∈ es, e.id = i ∧ e.src = n := by
  induction es generalizing ix with
  | nil => exact .inl h
  | cons e es ih =>
    rcases ih h with h | ⟨f, hf, hfi⟩
    · rcases lists_addEdge h with h | h
      · exact .inl h
      · exact .inr ⟨e, List.mem_cons_self, h⟩
    · exact .inr ⟨f, List.mem_cons_of_mem _ hf, hfi⟩

/-- Binding pins lists no edges. -/
theorem downhill_foldl_bind (bs : List PinBinding) (ix : DeviceIndex) :
    (bs.foldl bind ix).downhill = ix.downhill := by
  induction bs generalizing ix with
  | nil => rfl
  | cons b bs ih => exact ih (ix.bind b)

end DeviceIndex

namespace Device

variable {d : Device} {i : EdgeId} {n : NodeId} {e : Edge} {a : Arc}

/-- **What is listed is in the tables.** -/
theorem lists_indexOfTables (h : d.indexOfTables.Lists n i) :
    ∃ e ∈ d.edges, e.id = i ∧ e.src = n := by
  unfold indexOfTables at h
  simp only [← Array.foldl_toList] at h
  unfold DeviceIndex.Lists at h
  rw [DeviceIndex.downhill_foldl_bind] at h
  rcases DeviceIndex.lists_foldl_addEdge h with h | ⟨e, he, hei⟩
  · unfold DeviceIndex.Lists at h
    rw [Array.getD_eq_getD_getElem?, Array.getElem?_replicate] at h
    split at h <;> simp at h
  · exact ⟨e, Array.mem_toList_iff.mp he, hei⟩

/-- **The edges of a valid device lead from nodes of its table to nodes of its
table.** -/
theorem ends_lt_of_validate (h : d.validate = .ok ()) (he : e ∈ d.edges) :
    e.src.index < d.nodes.size ∧ e.dst.index < d.nodes.size := by
  have hd := validate_eq_ok_iff_coherent.mp h
  exact (hd.endsOfEdge e he).imp hd.nodesInPlace.names_iff.mp hd.nodesInPlace.names_iff.mp

namespace Ready

theorem coherent (hd : d.Ready) : d.Coherent := validate_eq_ok_iff_coherent.mp hd.valid

/-- The edges of a fit device are found under the identifiers they carry. -/
theorem edge?_id (hd : d.Ready) (he : e ∈ d.edges) : d.edge? e.id = some e :=
  hd.coherent.edgesInPlace.getElem?_id he

/-- **An edge listed at a node leaves it**, and is found under the
identifier that it is listed by. -/
theorem mem_downhill (hd : d.Ready) (h : i ∈ d.downhill n) :
    ∃ e, d.edge? i = some e ∧ e.id = i ∧ e.src = n := by
  unfold downhill at h
  rw [← hd.indexed, Array.mem_toList_iff] at h
  obtain ⟨e, he, rfl, rfl⟩ := lists_indexOfTables h
  exact ⟨e, hd.edge?_id he, rfl, rfl⟩

/-- A hop from a node is made by an edge of the device. -/
theorem mem_hopsFrom (hd : d.Ready) (h : a ∈ d.hopsFrom n) :
    a.src = n ∧ ∃ e, d.edge? a.edge = some e ∧ e.src = n ∧ e.dst = a.dst := by
  unfold hopsFrom at h
  obtain ⟨e, he, rfl⟩ := List.mem_map.mp h
  obtain ⟨i, hi, hie⟩ := List.mem_filterMap.mp he
  obtain ⟨f, hf, rfl, hsrc⟩ := hd.mem_downhill hi
  rw [hf, Option.some.injEq] at hie
  subst hie
  exact ⟨rfl, f, hf, hsrc, rfl⟩

end Ready

end Device

end HoldMargin
