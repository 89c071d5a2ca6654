import HoldMargin.IdSet
/-!
# The committed routing

Which device edges each net has committed. A routing is total: a net
without an entry has committed nothing, so that `Routing.of_set` holds of
every net.
-/

namespace HoldMargin

/-- The committed edges of every net. -/
structure Routing where
  /-- The committed edges of the nets at the first positions. -/
  sets : Array EdgeSet := #[]

namespace Routing

/-- The committed edges of the net at a position. -/
def entry (r : Routing) (position : Nat) : EdgeSet := r.sets.getD position ∅

/-- The committed edges of a net. -/
def of (r : Routing) (net : NetId) : EdgeSet := r.entry net.index

/-- The routing with other committed edges for one net. -/
def set (r : Routing) (net : NetId) (edges : EdgeSet) : Routing :=
  ⟨(r.sets ++ Array.replicate (net.index + 1 - r.sets.size) ∅).setIfInBounds net.index edges⟩

theorem entry_set (r : Routing) (net : NetId) (edges : EdgeSet) (position : Nat) :
    (r.set net edges).entry position = if position = net.index then edges else r.entry position := by
  by_cases h : position = net.index
  · subst h
    simp only [entry, set, ↓reduceIte, Array.getD_eq_getD_getElem?]
    rw [Array.getElem?_setIfInBounds_self_of_lt (by simp; omega)]
    rfl
  · simp only [entry, set, if_neg h, Array.getD_eq_getD_getElem?]
    rw [Array.getElem?_setIfInBounds_ne (Ne.symm h), Array.getElem?_append]
    split
    · rfl
    · rename_i hle
      rw [Array.getElem?_replicate, Array.getElem?_eq_none (by omega)]
      split <;> rfl

/-- **Setting one net's edges changes that net and no other.** -/
theorem of_set (r : Routing) (net other : NetId) (edges : EdgeSet) :
    (r.set net edges).of other = if other = net then edges else r.of other := by
  rw [of, entry_set, of]
  by_cases h : other = net
  · rw [if_pos h, if_pos (h ▸ rfl)]
  · rw [if_neg h, if_neg fun he => h (TableId.ext_index he)]

@[simp] theorem of_set_self (r : Routing) (net : NetId) (edges : EdgeSet) :
    (r.set net edges).of net = edges := by
  simp [of_set]

end Routing

end HoldMargin
