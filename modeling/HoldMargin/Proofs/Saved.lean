import HoldMargin.Proofs.Listed
import HoldMargin.Proofs.Reread
import HoldMargin.Snapshot
/-!
# What is saved is read back

A snapshot is written field by field and read field by field. For every type
of entry the two agree, and what is written is plain: that is what
`Json.RoundTrip` collects, and tables, lists and optional values inherit it.
With the round trip of texts (`Json.read_pretty`) the text of a snapshot is
read as the snapshot without its indices (`Snapshot.read_text`), and it is
refused for no other reason than a fault of the device.
-/

namespace HoldMargin

/-! ## Writers and readers that agree -/

namespace Json

/-- **A writer and a reader that agree**: what is written is plain, and reading it
gives what was written. -/
structure RoundTrip {α : Type} (write : α → Json) (read : Json → Option α) : Prop where
  isPlain (a : α) : (write a).IsPlain
  read_write (a : α) : read (write a) = some a

variable {α : Type} {write : α → Json} {read : Json → Option α}

theorem isPlain_list {as : List α} (h : ∀ a ∈ as, (write a).IsPlain) :
    (Json.list write as).IsPlain := by
  refine .arr fun v hv => ?_
  obtain ⟨a, ha, rfl⟩ := List.mem_map.mp hv
  exact h a ha

/-- The items of a list are read one by one. -/
theorem list?_list {as : List α} (h : ∀ a ∈ as, read (write a) = some a) :
    (Json.list write as).list? read = some as := by
  show (as.map write).mapM read = some as
  induction as with
  | nil => rfl
  | cons a as ih =>
    have hread := ih fun b hb => h b (List.mem_cons_of_mem _ hb)
    rw [List.map_cons, List.mapM_cons, h a List.mem_cons_self, hread]
    rfl

namespace RoundTrip

theorem list (h : RoundTrip write read) : RoundTrip (Json.list write) (list? read) where
  isPlain _ := isPlain_list fun a _ => h.isPlain a
  read_write _ := list?_list fun a _ => h.read_write a

theorem table (h : RoundTrip write read) : RoundTrip (Json.table write) (table? read) where
  isPlain _ := isPlain_list fun a _ => h.isPlain a
  read_write _ := by
    rw [table?, Json.table, h.list.read_write, Option.map_some, Array.toArray_toList]

/-- Null is kept for an absent value. -/
theorem optional (h : RoundTrip write read) (hnull : ∀ a, write a ≠ .null) :
    RoundTrip (Json.optional write) (orNull? read) where
  isPlain o := by
    cases o with
    | none => exact .null
    | some a => exact h.isPlain a
  read_write o := by
    cases o with
    | none => rfl
    | some a =>
      have hread := h.read_write a
      show orNull? read (write a) = some (some a)
      rw [orNull?, hread, Option.map_some]
      exact hnull a

end RoundTrip

theorem roundTrip_word32 : RoundTrip ofWord word32? where
  isPlain w := .nat w.toNat
  read_write w := by
    rw [ofWord, word32?, if_pos w.toNat_lt_size, Nat.toUInt32_eq, UInt32.ofNat_toNat]

theorem roundTrip_id {t : Table} : RoundTrip (TableId.toJson (t := t)) id? where
  isPlain i := .nat i.index
  read_write i := by
    have hword : (ofWord i.raw).word32? = some i.raw := roundTrip_word32.read_write i.raw
    show (ofWord i.raw).word32?.map TableId.mk = some i
    rw [hword, Option.map_some]

theorem roundTrip_wordOrNull : RoundTrip (Json.optional ofWord) (orNull? word32?) :=
  roundTrip_word32.optional nofun

theorem roundTrip_idOrNull {t : Table} :
    RoundTrip (Json.optional (TableId.toJson (t := t))) (orNull? id?) :=
  roundTrip_id.optional nofun

theorem roundTrip_text : RoundTrip Json.str text? where
  isPlain s := .str s
  read_write _ := rfl

/-- A set is written in ascending order, and any order is read. -/
theorem roundTrip_set {t : Table} : RoundTrip (IdSet.toJson (t := t)) IdSet.ofJson? where
  isPlain s := roundTrip_id.list.isPlain s.toList
  read_write s := by
    rw [IdSet.ofJson?, IdSet.toJson, roundTrip_id.list.read_write, Option.map_some,
      IdSet.ofList_toList]

/-- A case without fields is written as its name. -/
theorem roundTrip_case {name : α → String} {ofName? : String → Option α}
    (h : ∀ a, ofName? (name a) = some a) :
    RoundTrip (fun a => .str (name a)) fun v => (jsonNotation.case? v).bind ofName? where
  isPlain a := .str (name a)
  read_write a := h a

/-! ## Records -/

theorem isPlain_obj_iff {fields : List (String × Json)} :
    (Json.obj fields).IsPlain ↔ ∀ f ∈ fields, f.2.IsPlain :=
  ⟨fun | .obj h => h, .obj⟩

end Json

/-- An object with distinct names is read as a record. -/
theorem Notation.record?_obj {fields : List (String × Json)} {names : List String}
    (h : (fields.map Prod.fst).Nodup) :
    jsonNotation.record? names (.obj fields) = some (.named fields) := by
  refine if_pos (List.all_eq_true.mpr fun name _ => decide_eq_true ?_)
  have hcount := List.nodup_iff_count.mp h name
  rwa [List.count, List.countP_map] at hcount

theorem Record.find?_named_cons (name other : String) (v : Json) (fields : List (String × Json)) :
    (Record.named ((other, v) :: fields)).find? name =
      if name = other then some v else (Record.named fields).find? name := by
  show List.lookup name ((other, v) :: fields) = _
  by_cases h : name = other
  · rw [if_pos h, List.lookup_cons, beq_iff_eq.mpr h]
  · rw [if_neg h, List.lookup_cons, beq_eq_false_iff_ne.mpr h]
    rfl

/-! ## Entries -/

section Entries

open Json

theorem TileType.ofName?_name (type : TileType) : TileType.ofName? type.name = some type := by
  cases type <;> rfl

theorem NodeKind.ofName?_name (kind : NodeKind) : NodeKind.ofName? kind.name = some kind := by
  cases kind <;> rfl

theorem NetKind.ofName?_name (kind : NetKind) : NetKind.ofName? kind.name = some kind := by
  cases kind <;> rfl

theorem PinRole.ofName?_name (role : PinRole) : PinRole.ofName? role.name = some role := by
  cases role <;> rfl

theorem ClockRegion.roundTrip : RoundTrip ClockRegion.toJson ClockRegion.ofJson? where
  isPlain r := by
    simp [toJson, isPlain_obj_iff, roundTrip_word32.isPlain]
  read_write r := by
    simp [ofJson?, toJson, Notation.record?_obj, Record.required, Record.find?_named_cons,
      roundTrip_word32.read_write]

theorem Tile.roundTrip : RoundTrip Tile.toJson Tile.ofJson? where
  isPlain t := by
    simp [toJson, isPlain_obj_iff, roundTrip_id.isPlain, roundTrip_text.isPlain,
      roundTrip_word32.isPlain, ClockRegion.roundTrip.isPlain]
  read_write t := by
    have htype := (roundTrip_case TileType.ofName?_name).read_write t.type
    simp [ofJson?, toJson, Notation.record?_obj, Record.required, Record.find?_named_cons,
      roundTrip_id.read_write, roundTrip_text.read_write, roundTrip_word32.read_write,
      ClockRegion.roundTrip.read_write, TileType.ofJson?, htype]

theorem Site.roundTrip : RoundTrip Site.toJson Site.ofJson? where
  isPlain s := by
    simp [toJson, isPlain_obj_iff, roundTrip_id.isPlain, roundTrip_text.isPlain,
      roundTrip_idOrNull.isPlain]
  read_write s := by
    simp [ofJson?, toJson, Notation.record?_obj, Record.required, Record.withDefault,
      Record.find?_named_cons, roundTrip_id.read_write, roundTrip_text.read_write,
      roundTrip_idOrNull.read_write]

theorem Node.roundTrip : RoundTrip Node.toJson Node.ofJson? where
  isPlain n := by
    simp [toJson, isPlain_obj_iff, roundTrip_id.isPlain, roundTrip_text.isPlain,
      roundTrip_wordOrNull.isPlain]
  read_write n := by
    have hkind := (roundTrip_case NodeKind.ofName?_name).read_write n.kind
    simp [ofJson?, toJson, Notation.record?_obj, Record.required, Record.withDefault,
      Record.find?_named_cons, roundTrip_id.read_write, roundTrip_text.read_write,
      roundTrip_wordOrNull.read_write, NodeKind.ofJson?, hkind]

theorem Edge.roundTrip : RoundTrip Edge.toJson Edge.ofJson? where
  isPlain e := by
    simp [toJson, isPlain_obj_iff, roundTrip_id.isPlain]
  read_write e := by
    simp [ofJson?, toJson, Notation.record?_obj, Record.required, Record.find?_named_cons,
      roundTrip_id.read_write]

theorem PinBinding.roundTrip : RoundTrip PinBinding.toJson PinBinding.ofJson? where
  isPlain b := by
    simp [toJson, isPlain_obj_iff, roundTrip_id.isPlain, roundTrip_text.isPlain]
  read_write b := by
    simp [ofJson?, toJson, Notation.record?_obj, Record.required, Record.find?_named_cons,
      roundTrip_id.read_write, roundTrip_text.read_write]

theorem Pin.roundTrip : RoundTrip Pin.toJson Pin.ofJson? where
  isPlain p := by
    simp [toJson, isPlain_obj_iff, roundTrip_id.isPlain, roundTrip_text.isPlain]
  read_write p := by
    have hrole := (roundTrip_case PinRole.ofName?_name).read_write p.role
    simp [ofJson?, toJson, Notation.record?_obj, Record.required, Record.withDefault,
      Record.find?_named_cons, roundTrip_id.read_write, roundTrip_text.read_write, hrole]

/-- A net is written with its committed edges. -/
theorem Net.roundTrip :
    RoundTrip (fun entry : Net × EdgeSet => entry.1.toJson entry.2) Net.ofJson? where
  isPlain entry := by
    simp [toJson, isPlain_obj_iff, roundTrip_id.isPlain, roundTrip_text.isPlain,
      roundTrip_idOrNull.isPlain, roundTrip_id.list.isPlain, roundTrip_set.isPlain]
  read_write entry := by
    have hkind := (roundTrip_case NetKind.ofName?_name).read_write entry.1.kind
    simp [ofJson?, toJson, Notation.record?_obj, Record.required, Record.withDefault,
      Record.nullable, Record.find?_named_cons, roundTrip_id.read_write,
      roundTrip_text.read_write, roundTrip_idOrNull.read_write, roundTrip_id.list.read_write,
      roundTrip_set.read_write, hkind]

/-! ## Snapshots -/

theorem Device.isPlain_toJson (d : Device) : d.toJson.IsPlain := by
  simp [toJson, isPlain_obj_iff, roundTrip_text.isPlain, Tile.roundTrip.table.isPlain,
    Site.roundTrip.table.isPlain, Node.roundTrip.table.isPlain, Edge.roundTrip.table.isPlain,
    PinBinding.roundTrip.table.isPlain]

/-- A device is read as it was written, without its index. -/
theorem Device.ofJson?_toJson (d : Device) : ofJson? d.toJson = some d.withoutIndex := by
  simp [ofJson?, toJson, withoutIndex, Notation.record?_obj, Record.required,
    Record.find?_named_cons, roundTrip_text.read_write, Tile.roundTrip.table.read_write,
    Site.roundTrip.table.read_write, Node.roundTrip.table.read_write,
    Edge.roundTrip.table.read_write, PinBinding.roundTrip.table.read_write]

theorem Design.length_routings (d : Design) : d.routings.length = d.netlist.nets.size := by
  rw [routings, List.length_map, List.length_range]

/-- The design as it is written: its routing has an entry for every net and no more,
and its names are not indexed. -/
def Design.written (d : Design) : Design where
  netlist := d.netlist.withoutIndex
  routing := { sets := d.routings.toArray }

/-- A design is written net by net with the edges each one has committed. -/
theorem Design.entry_written (d : Design) {i : Nat} (h : i < d.netlist.nets.size) :
    d.written.routing.entry i = d.routing.entry i := by
  simp [written, Routing.entry, routings, h]

theorem Design.routings_written (d : Design) : d.written.routings = d.routings := by
  refine List.map_congr_left fun i hi => d.entry_written ?_
  exact List.mem_range.mp hi

theorem Design.isPlain_toJson (d : Design) : d.toJson.IsPlain := by
  have hnets := Net.roundTrip.list.isPlain (d.netlist.nets.toList.zip d.routings)
  simp only [Json.list] at hnets
  simp [toJson, isPlain_obj_iff, roundTrip_text.isPlain, hnets, Pin.roundTrip.table.isPlain]

/-- A design is read as it was written. -/
theorem Design.ofJson?_toJson (d : Design) : ofJson? d.toJson = some d.written := by
  have hnets := Net.roundTrip.list.read_write (d.netlist.nets.toList.zip d.routings)
  have hlength := d.length_routings
  simp only [Json.list] at hnets
  simp [ofJson?, toJson, name, written, Netlist.withoutIndex, Notation.record?_obj, Record.required,
    Record.find?_named_cons, roundTrip_text.read_write, hnets, Pin.roundTrip.table.read_write,
    List.map_fst_zip, List.map_snd_zip, hlength]

/-- The snapshot as it is written. -/
def Snapshot.written (s : Snapshot) : Snapshot where
  device := s.device.withoutIndex
  design := s.design.written

theorem Snapshot.isPlain_toJson (s : Snapshot) : s.toJson.IsPlain := by
  simp [toJson, isPlain_obj_iff, s.device.isPlain_toJson, s.design.isPlain_toJson]

theorem Snapshot.ofJson?_toJson (s : Snapshot) : ofJson? s.toJson = some s.written := by
  simp [ofJson?, toJson, written, Notation.record?_obj, Record.required, Record.find?_named_cons,
    Device.ofJson?_toJson, Design.ofJson?_toJson]

/-- The text of a snapshot is read as the snapshot as it is written. -/
theorem Snapshot.read_text (s : Snapshot) :
    (Json.read s.text).bind ofJson? = some s.written := by
  rw [text, Json.read_pretty s.isPlain_toJson, Option.bind_some, ofJson?_toJson]

/-- **A snapshot is read back as it was saved**, without its indices, and it is
refused only with the fault of its device. -/
theorem Snapshot.ofText_text (s : Snapshot) :
    ∃ back : Snapshot, (Json.read s.text).bind ofJson? = some back ∧
      back.device = { s.device with index := {} } ∧
      back.design.netlist = { s.design.netlist with byName := ∅ } ∧
      back.design.routings = s.design.routings ∧
      ofText s.text =
        match s.device.validate with
        | .error fault => .error (.invalid fault)
        | .ok () => .ok { device := back.device.reindex, design := back.design.reindex } := by
  refine ⟨s.written, s.read_text, rfl, rfl, s.design.routings_written, ?_⟩
  rw [ofText, s.read_text]
  rfl

end Entries

end HoldMargin
