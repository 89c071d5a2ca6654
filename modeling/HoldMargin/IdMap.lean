import HoldMargin.TableId
/-!
# Finite maps on identifiers

A map from the identifiers of one table, held as the list of its entries in
ascending order. Like a set, a map is determined by what it says
(`IdMap.ext`), in whatever order its entries were made. `get?_insert` says
what an insertion does.
-/

namespace HoldMargin

/-- A finite map from identifiers of the table `t`. -/
structure IdMap (t : Table) (α : Type) where
  /-- The entries, ascending. -/
  toList : List (TableId t × α)
  sorted : (toList.map Prod.fst).Pairwise (· < ·)
deriving DecidableEq

namespace IdMap

variable {t : Table} {α : Type}

instance : EmptyCollection (IdMap t α) := ⟨{ toList := [], sorted := by simp }⟩

instance : Inhabited (IdMap t α) := ⟨∅⟩

/-- The number of entries. -/
def size (m : IdMap t α) : Nat := m.toList.length

/-- The identifiers that have an entry, ascending. -/
def keys (m : IdMap t α) : List (TableId t) := m.toList.map Prod.fst

/-- The value at an identifier. -/
def get? (m : IdMap t α) (i : TableId t) : Option α := m.toList.lookup i

/-- Whether an identifier has an entry. -/
def contains (m : IdMap t α) (i : TableId t) : Bool := (m.get? i).isSome

/-- Puts an entry at its place in an ascending list, in the stead of an
earlier one. -/
def insertSorted (i : TableId t) (a : α) : List (TableId t × α) → List (TableId t × α)
  | [] => [(i, a)]
  | e :: es =>
    if i < e.1 then (i, a) :: e :: es
    else if i = e.1 then (i, a) :: es
    else e :: insertSorted i a es

theorem mem_keys_insertSorted {i x : TableId t} {a : α} {l : List (TableId t × α)} :
    x ∈ (insertSorted i a l).map Prod.fst ↔ x = i ∨ x ∈ l.map Prod.fst := by
  induction l with
  | nil => simp [insertSorted]
  | cons e es ih =>
    rw [insertSorted]
    split
    · simp
    · split
      · rename_i h
        simp [h]
      · simp only [List.map_cons, List.mem_cons, ih]
        grind

theorem pairwise_insertSorted {i : TableId t} {a : α} {l : List (TableId t × α)}
    (h : (l.map Prod.fst).Pairwise (· < ·)) :
    ((insertSorted i a l).map Prod.fst).Pairwise (· < ·) := by
  induction l with
  | nil => simp [insertSorted]
  | cons e es ih =>
    rw [List.map_cons, List.pairwise_cons] at h
    rw [insertSorted]
    split
    · rename_i hlt
      refine List.pairwise_cons.mpr ⟨?_, List.pairwise_cons.mpr h⟩
      intro x hx
      rcases List.mem_cons.mp hx with rfl | hx
      · exact hlt
      · exact TableId.lt_trans hlt (h.1 x hx)
    · split
      · rename_i heq
        refine List.pairwise_cons.mpr ⟨?_, h.2⟩
        intro x hx
        exact heq ▸ h.1 x hx
      · rename_i hlt hne
        refine List.pairwise_cons.mpr ⟨?_, ih h.2⟩
        intro x hx
        rcases mem_keys_insertSorted.mp hx with rfl | hx
        · exact Classical.byContradiction fun hgt => hne (TableId.eq_of_not_lt hlt hgt)
        · exact h.1 x hx

/-- The map with the value `a` at `i`. -/
def insert (m : IdMap t α) (i : TableId t) (a : α) : IdMap t α :=
  ⟨insertSorted i a m.toList, pairwise_insertSorted m.sorted⟩

/-- The map that is `a` at the identifiers of a list. -/
def ofKeys (is : List (TableId t)) (a : α) : IdMap t α := is.foldl (·.insert · a) ∅

/-! ## What a map says -/

@[simp] theorem get?_empty (i : TableId t) : (∅ : IdMap t α).get? i = none := rfl

theorem lookup_cons {k i : TableId t} {b : α} {l : List (TableId t × α)} :
    ((k, b) :: l).lookup i = if i = k then some b else l.lookup i := by
  rw [List.lookup_cons]
  by_cases h : i = k
  · simp [h]
  · have hne : (i == k) = false := by simp [h]
    simp [h, hne]

theorem lookup_insertSorted {i j : TableId t} {a : α} {l : List (TableId t × α)} :
    (insertSorted i a l).lookup j = if j = i then some a else l.lookup j := by
  induction l with
  | nil => by_cases h : j = i <;> simp [insertSorted, lookup_cons, h]
  | cons e es ih =>
    obtain ⟨k, b⟩ := e
    rw [insertSorted]
    split
    · by_cases h : j = i <;> simp [lookup_cons, h]
    · split
      · rename_i hik
        have hik : i = k := hik
        subst hik
        by_cases h : j = i <;> simp [lookup_cons, h]
      · rename_i hik
        have hik : ¬ i = k := hik
        by_cases hk : j = k
        · subst hk
          have hne : ¬ j = i := fun h => hik h.symm
          simp [hne]
        · simp [lookup_cons, hk, ih]

/-- **An insertion changes a map at one identifier only.** -/
@[simp] theorem get?_insert (m : IdMap t α) (i j : TableId t) (a : α) :
    (m.insert i a).get? j = if j = i then some a else m.get? j :=
  lookup_insertSorted

/-- The identifiers with an entry are those where the map has a value. -/
theorem mem_keys_iff {m : IdMap t α} {i : TableId t} : i ∈ m.keys ↔ ∃ a, m.get? i = some a := by
  unfold keys get?
  induction m.toList with
  | nil => simp
  | cons e es ih =>
    obtain ⟨k, b⟩ := e
    by_cases h : i = k <;> simp [lookup_cons, h, ih]

/-- In an ascending list every entry is found under its identifier. -/
theorem mem_iff_lookup {l : List (TableId t × α)} (h : (l.map Prod.fst).Pairwise (· < ·))
    {i : TableId t} {a : α} : (i, a) ∈ l ↔ l.lookup i = some a := by
  induction l with
  | nil => simp
  | cons e es ih =>
    obtain ⟨k, b⟩ := e
    rw [List.map_cons, List.pairwise_cons] at h
    by_cases hk : i = k
    · subst hk
      have hno : (i, a) ∉ es := fun hmem =>
        TableId.lt_irrefl i (h.1 i (List.mem_map_of_mem (f := Prod.fst) hmem))
      simp [hno, eq_comm]
    · simp [lookup_cons, hk, ih h.2]

theorem mem_toList_iff {m : IdMap t α} {i : TableId t} {a : α} :
    (i, a) ∈ m.toList ↔ m.get? i = some a :=
  mem_iff_lookup m.sorted

/-- An identifier below all keys of a list has no entry in it. -/
theorem lookup_eq_none_of_lt {l : List (TableId t × α)} {k : TableId t}
    (h : ∀ x ∈ l.map Prod.fst, k < x) : l.lookup k = none := by
  induction l with
  | nil => rfl
  | cons e es ih =>
    obtain ⟨j, b⟩ := e
    have hne : k ≠ j := fun he => TableId.lt_irrefl k (he ▸ h j (by simp))
    rw [lookup_cons, if_neg hne]
    exact ih fun x hx => h x (List.mem_cons_of_mem _ hx)

theorem eq_of_lookup {l m : List (TableId t × α)} (hl : (l.map Prod.fst).Pairwise (· < ·))
    (hm : (m.map Prod.fst).Pairwise (· < ·)) (h : ∀ i, l.lookup i = m.lookup i) : l = m := by
  induction l generalizing m with
  | nil => cases m with
    | nil => rfl
    | cons f fs =>
      obtain ⟨k, b⟩ := f
      simpa [lookup_cons] using h k
  | cons e es ih =>
    obtain ⟨k, a⟩ := e
    cases m with
    | nil => simpa [lookup_cons] using h k
    | cons f fs =>
      obtain ⟨j, b⟩ := f
      rw [List.map_cons, List.pairwise_cons] at hl hm
      have hkj : k = j := by
        refine TableId.eq_of_not_lt (fun hlt => ?_) (fun hgt => ?_)
        · have hnone : ((j, b) :: fs).lookup k = none := by
            refine lookup_eq_none_of_lt fun x hx => ?_
            rcases List.mem_cons.mp hx with rfl | hx
            · exact hlt
            · exact TableId.lt_trans hlt (hm.1 x hx)
          simpa [lookup_cons, hnone] using h k
        · have hnone : ((k, a) :: es).lookup j = none := by
            refine lookup_eq_none_of_lt fun x hx => ?_
            rcases List.mem_cons.mp hx with rfl | hx
            · exact hgt
            · exact TableId.lt_trans hgt (hl.1 x hx)
          simpa [lookup_cons, hnone] using h j
      subst hkj
      have hab : a = b := by simpa [lookup_cons] using h k
      subst hab
      rw [ih hl.2 hm.2]
      intro i
      by_cases hi : i = k
      · rw [hi, lookup_eq_none_of_lt hl.1, lookup_eq_none_of_lt hm.1]
      · simpa [lookup_cons, hi] using h i

/-- **Maps that say the same are equal.** -/
@[ext] theorem ext {m n : IdMap t α} (h : ∀ i, m.get? i = n.get? i) : m = n := by
  have hl := eq_of_lookup m.sorted n.sorted h
  cases m; cases n; cases hl; rfl

end IdMap

end HoldMargin
