import Mathlib.Logic.Relation
/-!
# Hops, counted from some starts

A way of `k` hops leads from one of some starts, hop by hop, as a relation
allows it (`Hops`). The least number of hops that lead to a place is its depth
(`Depth`). A breadth-first walk goes in rounds: each finds what has not been
seen and is one hop away from what the round before has found. So after `k`
rounds it has seen all that is `k` hops away or nearer, and what it has found
last is `k` hops deep (`Layer`). Nothing is asked of the relation: ways may
branch, join again or go round in circles. Where they do neither, and do not go
on for ever, they have so many hops at most (`exists_hops_le`).
-/

namespace HoldMargin

open Relation

variable {α : Type} {step : α → α → Prop} {starts seen frontier found : List α} {a b : α} {k : Nat}

/-! ## Ways -/

/-- A way of so many hops from one of the starts. -/
inductive Hops (step : α → α → Prop) (starts : List α) : α → Nat → Prop
  | start {a : α} : a ∈ starts → Hops step starts a 0
  | hop {a b : α} {k : Nat} : Hops step starts a k → step a b → Hops step starts b (k + 1)

theorem hops_zero_iff : Hops step starts a 0 ↔ a ∈ starts := by
  constructor
  · intro h
    cases h
    assumption
  · exact .start

theorem hops_succ_iff :
    Hops step starts b (k + 1) ↔ ∃ a, Hops step starts a k ∧ step a b := by
  constructor
  · intro h
    cases h with
    | hop ha hab => exact ⟨_, ha, hab⟩
  · rintro ⟨a, ha, hab⟩
    exact .hop ha hab

/-- What some hops lead to is reached. -/
theorem Hops.exists_start (h : Hops step starts a k) :
    ∃ start ∈ starts, ReflTransGen step start a := by
  induction h with
  | start ha => exact ⟨_, ha, .refl⟩
  | hop _ hab ih =>
    obtain ⟨start, hstart, hto⟩ := ih
    exact ⟨start, hstart, hto.tail hab⟩

/-- **The depth of a place**: the least number of hops that it takes there. -/
structure Depth (step : α → α → Prop) (starts : List α) (a : α) (k : Nat) : Prop where
  hops : Hops step starts a k
  least : ∀ j, Hops step starts a j → k ≤ j

/-- What is so many hops away is nearer, or so many hops deep. -/
theorem Hops.exists_lt_or_depth (h : Hops step starts a k) :
    (∃ j < k, Hops step starts a j) ∨ Depth step starts a k := by
  by_cases hless : ∃ j < k, Hops step starts a j
  · exact .inl hless
  · exact .inr ⟨h, fun j hj => Nat.le_of_not_lt fun hlt => hless ⟨j, hlt, hj⟩⟩

theorem depth_zero_iff : Depth step starts a 0 ↔ a ∈ starts :=
  ⟨fun h => hops_zero_iff.mp h.hops, fun h => ⟨.start h, fun _ _ => Nat.zero_le _⟩⟩

/-- **A place is one hop deeper than another** if a hop leads there from that one, and no way
that is as short leads there. -/
theorem depth_succ_iff :
    Depth step starts b (k + 1) ↔
      (∀ j ≤ k, ¬ Hops step starts b j) ∧ ∃ a, Depth step starts a k ∧ step a b := by
  constructor
  · intro h
    obtain ⟨a, ha, hab⟩ := hops_succ_iff.mp h.hops
    -- a shorter way to the place before would make for a shorter way here
    refine ⟨fun j hj hb => ?_, a, ⟨ha, fun j hj => ?_⟩, hab⟩
    · have := h.least j hb
      omega
    · have := h.least (j + 1) (.hop hj hab)
      omega
  · rintro ⟨hno, a, ha, hab⟩
    exact ⟨.hop ha.hops hab, fun j hj => Nat.lt_of_not_le fun hle => hno j hle hj⟩

/-! ## Rounds -/

/-- **Where a walk stands after `k` rounds**: it has seen all that is `k` hops away or nearer,
and goes on from what is `k` hops deep. -/
structure Layer (step : α → α → Prop) (starts seen frontier : List α) (k : Nat) : Prop where
  seen : ∀ a, a ∈ seen ↔ ∃ j ≤ k, Hops step starts a j
  frontier : ∀ a, a ∈ frontier ↔ Depth step starts a k

/-- Before its first round a walk has seen the starts. -/
theorem layer_start (h : ∀ a, a ∈ seen ↔ a ∈ starts) : Layer step starts seen seen 0 where
  seen a := by simp [hops_zero_iff, h]
  frontier a := by rw [h, depth_zero_iff]

/-- **A round finds the next layer.** -/
theorem Layer.next (h : Layer step starts seen frontier k)
    (hfound : ∀ b, b ∈ found ↔ b ∉ seen ∧ ∃ a ∈ frontier, step a b) :
    Layer step starts (seen ++ found) found (k + 1) := by
  have hdeeper : ∀ b, b ∈ found ↔ Depth step starts b (k + 1) := by
    intro b
    rw [hfound, depth_succ_iff, h.seen]
    simp only [h.frontier, not_exists, not_and]
  refine ⟨fun b => ?_, hdeeper⟩
  rw [List.mem_append, h.seen, hdeeper]
  constructor
  · rintro (⟨j, hj, hb⟩ | hb)
    · exact ⟨j, by omega, hb⟩
    · exact ⟨k + 1, Nat.le_refl _, hb.hops⟩
  · rintro ⟨j, hj, hb⟩
    rcases Nat.lt_or_eq_of_le hj with hj | rfl
    · exact .inl ⟨j, Nat.le_of_lt_succ hj, hb⟩
    · exact hb.exists_lt_or_depth.imp_left fun ⟨i, hi, hb⟩ => ⟨i, Nat.le_of_lt_succ hi, hb⟩

/-! ## Ways that end -/

/-- The first hop of a way may be taken apart as well as the last one. -/
theorem hops_succ_iff_head :
    Hops step [a] b (k + 1) ↔ ∃ c, step a c ∧ Hops step [c] b k := by
  induction k generalizing b with
  | zero => simp [hops_succ_iff, hops_zero_iff]
  | succ k ih =>
    rw [hops_succ_iff]
    simp only [ih]
    constructor
    · rintro ⟨x, ⟨c, hac, hcx⟩, hxb⟩
      exact ⟨c, hac, .hop hcx hxb⟩
    · rintro ⟨c, hac, hcb⟩
      obtain ⟨x, hcx, hxb⟩ := hops_succ_iff.mp hcb
      exact ⟨x, ⟨c, hac, hcx⟩, hxb⟩

/-- **Ways that do not branch and cannot go on for ever** have so many hops at most. -/
theorem exists_hops_le (hwf : WellFounded fun b a => step a b)
    (hunique : ∀ {a b c}, step a b → step a c → b = c) (a : α) :
    ∃ most, ∀ b k, Hops step [a] b k → k ≤ most := by
  induction a using hwf.induction with
  | h a ih =>
    by_cases hstep : ∃ c, step a c
    · obtain ⟨c, hac⟩ := hstep
      obtain ⟨most, hmost⟩ := ih c hac
      refine ⟨most + 1, fun b k hb => ?_⟩
      cases k with
      | zero => exact Nat.zero_le _
      | succ k =>
        obtain ⟨c', hac', hcb⟩ := hops_succ_iff_head.mp hb
        obtain rfl := hunique hac hac'
        exact Nat.succ_le_succ (hmost b k hcb)
    · refine ⟨0, fun b k hb => ?_⟩
      cases k with
      | zero => exact Nat.le_refl _
      | succ k =>
        obtain ⟨c, hac, -⟩ := hops_succ_iff_head.mp hb
        exact absurd ⟨c, hac⟩ hstep

end HoldMargin
