import HoldMargin.TableId
/-!
# Finite sets of identifiers

A set of identifiers of one table, held as its ascending list. The list is
determined by the members (`IdSet.ext`), so sets with the same members are
equal, and a set is written out in ascending order. `mem_insert`,
`mem_erase`, `mem_union` and `mem_diff` say what each operation does to the
members, and `subset_iff` when a set includes another one.
-/

namespace HoldMargin

/-- A finite set of identifiers of the table `t`. -/
structure IdSet (t : Table) where
  /-- The members, ascending. -/
  toList : List (TableId t)
  sorted : toList.Pairwise (· < ·)
deriving DecidableEq

/-- A set of device edges, such as the committed edges of a net. -/
abbrev EdgeSet := IdSet .edges

/-- A set of routing nodes. -/
abbrev NodeSet := IdSet .nodes

namespace IdSet

variable {t : Table}

instance : Membership (TableId t) (IdSet t) := ⟨fun s a => a ∈ s.toList⟩

theorem mem_def {a : TableId t} {s : IdSet t} : a ∈ s ↔ a ∈ s.toList := Iff.rfl

instance {a : TableId t} {s : IdSet t} : Decidable (a ∈ s) :=
  inferInstanceAs (Decidable (a ∈ s.toList))

instance : EmptyCollection (IdSet t) := ⟨⟨[], .nil⟩⟩

instance : Inhabited (IdSet t) := ⟨∅⟩

/-- A set lists no member twice. -/
theorem nodup (s : IdSet t) : s.toList.Nodup :=
  List.Pairwise.imp (fun {a b} (h : a < b) (heq : a = b) => TableId.lt_irrefl b (heq ▸ h)) s.sorted

/-- The number of members. -/
def size (s : IdSet t) : Nat := s.toList.length

/-! ## Adding and removing members -/

/-- Puts `a` at its place in an ascending list, unless it is there already. -/
def insertSorted (a : TableId t) : List (TableId t) → List (TableId t)
  | [] => [a]
  | b :: bs => if a < b then a :: b :: bs else if a = b then b :: bs else b :: insertSorted a bs

theorem mem_insertSorted {a x : TableId t} {l : List (TableId t)} :
    x ∈ insertSorted a l ↔ x = a ∨ x ∈ l := by
  induction l with
  | nil => simp [insertSorted]
  | cons b bs ih => grind [insertSorted]

theorem pairwise_insertSorted {a : TableId t} {l : List (TableId t)} (h : l.Pairwise (· < ·)) :
    (insertSorted a l).Pairwise (· < ·) := by
  induction l with
  | nil => simp [insertSorted]
  | cons b bs ih =>
    rw [List.pairwise_cons] at h
    rw [insertSorted]
    split
    · rename_i hab
      refine List.pairwise_cons.mpr ⟨?_, List.pairwise_cons.mpr h⟩
      intro x hx
      rcases List.mem_cons.mp hx with rfl | hx
      · exact hab
      · exact TableId.lt_trans hab (h.1 x hx)
    · split
      · exact List.pairwise_cons.mpr h
      · rename_i hab hne
        refine List.pairwise_cons.mpr ⟨?_, ih h.2⟩
        intro x hx
        rcases mem_insertSorted.mp hx with rfl | hx
        · exact Classical.byContradiction fun hba => hne (TableId.eq_of_not_lt hab hba)
        · exact h.1 x hx

/-- The set with `a` added. -/
def insert (s : IdSet t) (a : TableId t) : IdSet t :=
  ⟨insertSorted a s.toList, pairwise_insertSorted s.sorted⟩

/-- The set without `a`. -/
def erase (s : IdSet t) (a : TableId t) : IdSet t :=
  ⟨s.toList.filter (· != a), s.sorted.filter _⟩

/-- The set with the identifiers of a list added. -/
def union (s : IdSet t) (as : List (TableId t)) : IdSet t := as.foldl insert s

/-- The set without the identifiers of a list. -/
def diff (s : IdSet t) (as : List (TableId t)) : IdSet t := as.foldl erase s

/-- The set of the identifiers of a list. -/
def ofList (as : List (TableId t)) : IdSet t := union ∅ as

/-- Whether every member of `r` is a member of `s`. -/
def includes (s r : IdSet t) : Bool := r.toList.all (· ∈ s.toList)

instance : HasSubset (IdSet t) := ⟨fun r s => s.includes r⟩

instance : HasSSubset (IdSet t) := ⟨fun r s => r ⊆ s ∧ ¬ s ⊆ r⟩

/-! ## Members -/

@[simp] theorem not_mem_empty {a : TableId t} : a ∉ (∅ : IdSet t) := List.not_mem_nil

@[simp] theorem mem_insert {a x : TableId t} {s : IdSet t} : x ∈ s.insert a ↔ x = a ∨ x ∈ s :=
  mem_insertSorted

@[simp] theorem mem_erase {a x : TableId t} {s : IdSet t} : x ∈ s.erase a ↔ x ∈ s ∧ x ≠ a := by
  simp [mem_def, erase]

@[simp] theorem mem_union {x : TableId t} {s : IdSet t} {as : List (TableId t)} :
    x ∈ s.union as ↔ x ∈ s ∨ x ∈ as := by
  induction as generalizing s with
  | nil => simp [union]
  | cons a as ih =>
    have h : s.union (a :: as) = (s.insert a).union as := rfl
    rw [h, ih, mem_insert, List.mem_cons]
    grind

@[simp] theorem mem_diff {x : TableId t} {s : IdSet t} {as : List (TableId t)} :
    x ∈ s.diff as ↔ x ∈ s ∧ x ∉ as := by
  induction as generalizing s with
  | nil => simp [diff]
  | cons a as ih =>
    have h : s.diff (a :: as) = (s.erase a).diff as := rfl
    rw [h, ih, mem_erase, List.mem_cons]
    grind

@[simp] theorem mem_ofList {x : TableId t} {as : List (TableId t)} : x ∈ ofList as ↔ x ∈ as := by
  simp [ofList]

theorem subset_iff {r s : IdSet t} : r ⊆ s ↔ ∀ x ∈ r, x ∈ s := by
  show s.includes r ↔ _
  simp [includes, mem_def]

theorem mem_of_subset {r s : IdSet t} (h : r ⊆ s) {x : TableId t} (hx : x ∈ r) : x ∈ s :=
  subset_iff.mp h x hx

/-! ## Sets with the same members are equal -/

theorem eq_of_pairwise_of_mem {l m : List (TableId t)} (hl : l.Pairwise (· < ·))
    (hm : m.Pairwise (· < ·)) (h : ∀ x, x ∈ l ↔ x ∈ m) : l = m := by
  induction l generalizing m with
  | nil => cases m with
    | nil => rfl
    | cons b bs => exact absurd ((h b).mpr (by simp)) (by simp)
  | cons a as ih => cases m with
    | nil => exact absurd ((h a).mp (by simp)) (by simp)
    | cons b bs =>
      rw [List.pairwise_cons] at hl hm
      have hab : a = b := by
        rcases List.mem_cons.mp ((h a).mp (by simp)) with hab | ha
        · exact hab
        · rcases List.mem_cons.mp ((h b).mpr (by simp)) with hba | hb
          · exact hba.symm
          · exact absurd (TableId.lt_trans (hl.1 b hb) (hm.1 a ha)) (TableId.lt_irrefl a)
      subst hab
      rw [ih hl.2 hm.2]
      intro x
      have hx := h x
      simp only [List.mem_cons] at hx
      constructor
      · intro hxa
        rcases hx.mp (.inr hxa) with rfl | hxb
        · exact absurd (hl.1 x hxa) (TableId.lt_irrefl x)
        · exact hxb
      · intro hxb
        rcases hx.mpr (.inr hxb) with rfl | hxa
        · exact absurd (hm.1 x hxb) (TableId.lt_irrefl x)
        · exact hxa

@[ext] theorem ext {s r : IdSet t} (h : ∀ x, x ∈ s ↔ x ∈ r) : s = r := by
  have hl := eq_of_pairwise_of_mem s.sorted r.sorted h
  cases s; cases r; cases hl; rfl

/-- Writing a set out and reading it back gives the set. -/
@[simp] theorem ofList_toList (s : IdSet t) : ofList s.toList = s := by
  ext x; rw [mem_ofList, mem_def]

end IdSet

end HoldMargin
