/-!
# Tables and the identifiers of their entries

A device and a design are given as tables. An entry is named by a 32-bit
word, and the words of different tables are kept apart by their type, so a
net cannot be looked up among the nodes. `ofIndex_index` and
`index_ofIndex` relate the word to the position it stands for.
-/

namespace HoldMargin

/-- The tables a device and a routed design consist of. -/
inductive Table where
  | tiles
  | sites
  | nodes
  | edges
  | nets
  | pins
deriving DecidableEq, Repr

/-- The name of a table in messages. -/
def Table.name : Table → String
  | .tiles => "tiles"
  | .sites => "sites"
  | .nodes => "nodes"
  | .edges => "edges"
  | .nets => "nets"
  | .pins => "pins"

/-- The identifier of an entry of the table `t`. -/
structure TableId (t : Table) where
  raw : UInt32
deriving DecidableEq, Hashable, Repr

/-- A tile of the device grid. -/
abbrev TileId := TableId .tiles

/-- A placement site. -/
abbrev SiteId := TableId .sites

/-- A routing node of the interconnect. -/
abbrev NodeId := TableId .nodes

/-- A directed edge between two nodes. -/
abbrev EdgeId := TableId .edges

/-- A net of the design. -/
abbrev NetId := TableId .nets

/-- A pin instance of the design. -/
abbrev PinId := TableId .pins

namespace TableId

variable {t : Table}

/-- The position in its table that an identifier stands for. -/
def index (i : TableId t) : Nat := i.raw.toNat

/-- The identifier of the entry at position `n`. -/
def ofIndex (n : Nat) : TableId t := ⟨n.toUInt32⟩

instance : Inhabited (TableId t) := ⟨⟨0⟩⟩

instance : ToString (TableId t) := ⟨fun i => toString i.index⟩

-- Found anyway, but a membership test then names one instance everywhere.
instance : LawfulBEq (TableId t) := inferInstance

instance : Ord (TableId t) := ⟨compareOn raw⟩

instance : LT (TableId t) := ⟨fun a b => a.raw < b.raw⟩

instance : DecidableRel (α := TableId t) (· < ·) :=
  fun a b => inferInstanceAs (Decidable (a.raw < b.raw))

instance : Std.TransOrd (TableId t) :=
  inferInstanceAs (Std.TransCmp (compareOn (raw (t := t))))

instance : Std.LawfulEqOrd (TableId t) where
  eq_of_compare {a b} h := by
    have hraw : a.raw = b.raw := Std.LawfulEqOrd.eq_of_compare h
    cases a; cases b; exact congrArg _ hraw

theorem ext_index {a b : TableId t} (h : a.index = b.index) : a = b := by
  cases a; cases b; exact congrArg _ (UInt32.toNat_inj.mp h)

theorem lt_iff_index {a b : TableId t} : a < b ↔ a.index < b.index := UInt32.lt_iff_toNat_lt

theorem index_lt (i : TableId t) : i.index < UInt32.size := i.raw.toNat_lt_size

/-- An identifier is determined by its position. -/
@[simp] theorem ofIndex_index (i : TableId t) : ofIndex i.index = i := by
  cases i; simp [ofIndex, index]

/-- A table with no more entries than there are words never reuses an identifier. -/
theorem index_ofIndex {n : Nat} (h : n < UInt32.size) : (ofIndex n : TableId t).index = n :=
  UInt32.toNat_ofNat_of_lt' h

theorem lt_irrefl (a : TableId t) : ¬ a < a := by simp [lt_iff_index]

theorem lt_trans {a b c : TableId t} (h : a < b) (h' : b < c) : a < c := by
  rw [lt_iff_index] at *; omega

/-- Two identifiers neither of which is below the other are the same. -/
theorem eq_of_not_lt {a b : TableId t} (h : ¬ a < b) (h' : ¬ b < a) : a = b := by
  rw [lt_iff_index] at *
  exact ext_index (by omega)

end TableId

end HoldMargin
