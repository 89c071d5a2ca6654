import HoldMargin.Device
/-!
# Usage of routing resources

How many routed nodes there are of each kind, and the sum of their lengths.
Recording is adding: `record_comm` and `merge_comm` say that no order
matters, so usage can be collected net by net.
-/

namespace HoldMargin

/-- A number of nodes and the sum of their lengths. -/
structure Tally where
  nodes : Nat := 0
  length : Nat := 0
deriving DecidableEq

namespace Tally

/-- Both parts added. -/
def add (s t : Tally) : Tally := ⟨s.nodes + t.nodes, s.length + t.length⟩

theorem add_comm (s t : Tally) : s.add t = t.add s := by
  simp only [add, Nat.add_comm]

theorem add_assoc (s t u : Tally) : (s.add t).add u = s.add (t.add u) := by
  simp only [add, Nat.add_assoc]

theorem add_right_comm (s t u : Tally) : (s.add t).add u = (s.add u).add t := by
  rw [add_assoc, add_comm t u, ← add_assoc]

@[simp] theorem add_zero (s : Tally) : s.add {} = s := rfl

@[simp] theorem zero_add (s : Tally) : Tally.add {} s = s := by
  simp [add]

end Tally

/-- The place of a kind in reports. -/
def NodeKind.place : NodeKind → Fin 10
  | .sitePin => 0
  | .output => 1
  | .pinFeed => 2
  | .pinBounce => 3
  | .sdqNode => 4
  | .single => 5
  | .double => 6
  | .quad => 7
  | .long => 8
  | .global => 9

theorem NodeKind.place_inj {j k : NodeKind} : j.place = k.place ↔ j = k := by
  cases j <;> cases k <;> decide

/-- The use of routing resources. -/
structure Usage where
  /-- All nodes. -/
  total : Tally := {}
  /-- The nodes of each kind, at its place in reports. -/
  tallies : Vector Tally 10 := Vector.replicate 10 {}
deriving DecidableEq

namespace Usage

/-- The nodes of a kind. -/
def ofKind (u : Usage) (k : NodeKind) : Tally := u.tallies[k.place]

/-- The usage with one more node. -/
def record (u : Usage) (k : NodeKind) (length : Nat) : Usage where
  total := u.total.add ⟨1, length⟩
  tallies := u.tallies.set k.place ((u.ofKind k).add ⟨1, length⟩)

/-- The usage of two sets of nodes together. -/
def merge (u v : Usage) : Usage where
  total := u.total.add v.total
  tallies := u.tallies.zipWith Tally.add v.tallies

/-- The kinds that are used, in the order of reports. -/
def rows (u : Usage) : List (NodeKind × Tally) :=
  (NodeKind.all.map fun k => (k, u.ofKind k)).filter fun row => row.2.nodes ≠ 0

@[simp] theorem ofKind_empty (k : NodeKind) : ({} : Usage).ofKind k = {} := by
  simp [ofKind]

@[simp] theorem ofKind_record (u : Usage) (j k : NodeKind) (length : Nat) :
    (u.record j length).ofKind k =
      if j = k then (u.ofKind k).add ⟨1, length⟩ else u.ofKind k := by
  unfold ofKind record
  by_cases h : j = k
  · subst h
    simp [ofKind]
  · have hne : j.place.val ≠ k.place.val := fun he =>
      h (NodeKind.place_inj.mp (Fin.ext he))
    simp [h, Vector.getElem_set_ne, hne]

@[simp] theorem ofKind_merge (u v : Usage) (k : NodeKind) :
    (u.merge v).ofKind k = (u.ofKind k).add (v.ofKind k) := by
  simp [ofKind, merge]

@[simp] theorem total_record (u : Usage) (k : NodeKind) (length : Nat) :
    (u.record k length).total = u.total.add ⟨1, length⟩ := rfl

@[simp] theorem total_merge (u v : Usage) : (u.merge v).total = u.total.add v.total := rfl

/-- Usage is given by its total and by the tallies of the kinds. -/
theorem ext_ofKind {u v : Usage} (ht : u.total = v.total) (h : ∀ k, u.ofKind k = v.ofKind k) :
    u = v := by
  have hs : u.tallies = v.tallies := by
    ext i hi : 1
    have hk : ∃ k : NodeKind, k.place = ⟨i, hi⟩ := by
      have hall : ∀ p : Fin 10, ∃ k ∈ NodeKind.all, k.place = p := by decide
      obtain ⟨k, -, hk⟩ := hall ⟨i, hi⟩
      exact ⟨k, hk⟩
    obtain ⟨k, hk⟩ := hk
    have hkk := h k
    simp only [ofKind] at hkk
    simpa [hk] using hkk
  cases u; cases v; simp_all

/-- The order of recording does not matter. -/
theorem record_comm (u : Usage) (j k : NodeKind) (a b : Nat) :
    (u.record j a).record k b = (u.record k b).record j a := by
  refine ext_ofKind ?_ fun i => ?_
  · simp only [total_record]
    exact Tally.add_right_comm ..
  · simp only [ofKind_record]
    split
    · split
      · exact Tally.add_right_comm ..
      · rfl
    · rfl

/-- Nor does the order of merging. -/
theorem merge_comm (u v : Usage) : u.merge v = v.merge u := by
  refine ext_ofKind ?_ fun i => ?_
  · simp only [total_merge, Tally.add_comm]
  · simp only [ofKind_merge, Tally.add_comm]

theorem merge_assoc (u v w : Usage) : (u.merge v).merge w = u.merge (v.merge w) := by
  refine ext_ofKind ?_ fun i => ?_
  · simp only [total_merge, Tally.add_assoc]
  · simp only [ofKind_merge, Tally.add_assoc]

/-- Recording commutes with merging. -/
theorem merge_record (u v : Usage) (k : NodeKind) (a : Nat) :
    u.merge (v.record k a) = (u.merge v).record k a := by
  refine ext_ofKind ?_ fun i => ?_
  · simp only [total_merge, total_record, Tally.add_assoc]
  · simp only [ofKind_merge, ofKind_record]
    split <;> simp only [Tally.add_assoc]

end Usage

end HoldMargin
