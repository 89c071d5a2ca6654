import HoldMargin.Device
import HoldMargin.IdSet
import Mathlib.Logic.Relation
/-!
# Committed edges as a graph

The edges a net has committed lead from node to node. `Device.Leads` is
that relation, read off the tables, and `Device.IsForest` says what shape
it is to have: no node is entered twice, and no way leads back to its
start. A forest stays one when edges are taken away (`IsForest.of_subset`)
and when a path is added that enters only nodes the forest does not touch
(`IsForest.of_grows`). These are the two things that happen to a route.
-/

namespace HoldMargin

open Relation

namespace Device

variable {d : Device} {es fs : EdgeSet} {u v w n : NodeId}

/-- Edges lead from a node to a node if one of them does. -/
def Leads (d : Device) (es : EdgeSet) (u v : NodeId) : Prop :=
  ∃ i ∈ es, ∃ e, d.edge? i = some e ∧ e.src = u ∧ e.dst = v

/-- Whether a node is at an end of one of the edges. -/
def Touches (d : Device) (es : EdgeSet) (n : NodeId) : Prop :=
  ∃ m, d.Leads es n m ∨ d.Leads es m n

/-- A node that edges lead to from one of some roots, or a root. -/
def Supplies (d : Device) (es : EdgeSet) (roots : NodeSet) (n : NodeId) : Prop :=
  ∃ root ∈ roots, ReflTransGen (d.Leads es) root n

/-- **A forest of edges**, counted one by one: two edges between the same
nodes enter the second node twice. -/
structure IsForest (d : Device) (es : EdgeSet) : Prop where
  /-- No node is entered by two edges. -/
  entered_once : ∀ i ∈ es, ∀ j ∈ es, ∀ e f, d.edge? i = some e → d.edge? j = some f →
    e.dst = f.dst → i = j
  /-- No way leads back to its start. -/
  acyclic : ∀ n, ¬ TransGen (d.Leads es) n n

theorem Leads.mono (hsub : ∀ i ∈ es, i ∈ fs) (h : d.Leads es u v) : d.Leads fs u v := by
  obtain ⟨i, hi, e, he, hsrc, hdst⟩ := h
  exact ⟨i, hsub i hi, e, he, hsrc, hdst⟩

theorem leads_insert {i : EdgeId} :
    d.Leads (es.insert i) u v ↔
      d.Leads es u v ∨ ∃ e, d.edge? i = some e ∧ e.src = u ∧ e.dst = v := by
  constructor
  · rintro ⟨j, hj, e, he, hsrc, hdst⟩
    rcases IdSet.mem_insert.mp hj with rfl | hj
    · exact .inr ⟨e, he, hsrc, hdst⟩
    · exact .inl ⟨j, hj, e, he, hsrc, hdst⟩
  · rintro (h | ⟨e, he, hsrc, hdst⟩)
    · exact h.mono fun j hj => IdSet.mem_insert.mpr (.inr hj)
    · exact ⟨i, IdSet.mem_insert.mpr (.inl rfl), e, he, hsrc, hdst⟩

theorem Touches.of_leads_left (h : d.Leads es u v) : d.Touches es u := ⟨v, .inl h⟩

theorem Touches.of_leads_right (h : d.Leads es u v) : d.Touches es v := ⟨u, .inr h⟩

theorem Touches.mono (hsub : ∀ i ∈ es, i ∈ fs) (h : d.Touches es n) : d.Touches fs n := by
  obtain ⟨m, h⟩ := h
  exact ⟨m, h.imp (·.mono hsub) (·.mono hsub)⟩

theorem Supplies.mono {roots : NodeSet} (hsub : ∀ i ∈ es, i ∈ fs) (h : d.Supplies es roots n) :
    d.Supplies fs roots n := by
  obtain ⟨root, hroot, h⟩ := h
  exact ⟨root, hroot, ReflTransGen.mono (fun _ _ hl => hl.mono hsub) _ _ h⟩

theorem supplies_of_mem {roots : NodeSet} (h : n ∈ roots) : d.Supplies es roots n :=
  ⟨n, h, .refl⟩

namespace IsForest

/-- In a forest a node has one predecessor at most. -/
theorem pred_unique (hf : d.IsForest es) (hu : d.Leads es u w) (hv : d.Leads es v w) : u = v := by
  obtain ⟨i, hi, e, he, rfl, hew⟩ := hu
  obtain ⟨j, hj, f, hfe, rfl, hfw⟩ := hv
  have hij : i = j := hf.entered_once i hi j hj e f he hfe (by rw [hew, hfw])
  subst hij
  rw [he, Option.some.injEq] at hfe
  rw [hfe]

/-- **Fewer edges of a forest are a forest.** -/
theorem of_subset (hf : d.IsForest fs) (hsub : ∀ i ∈ es, i ∈ fs) : d.IsForest es where
  entered_once i hi j hj := hf.entered_once i (hsub i hi) j (hsub j hj)
  acyclic n h := hf.acyclic n (TransGen.mono (fun _ _ hl => hl.mono hsub) _ _ h)

/-- **A forest may be lengthened by an edge** to a node it does not touch. -/
theorem insert {i : EdgeId} {e : Edge} (hf : d.IsForest es) (he : d.edge? i = some e)
    (hnew : ¬ d.Touches es e.dst) (hne : e.src ≠ e.dst) : d.IsForest (es.insert i) := by
  have hother : ∀ j ∈ es, ∀ f, d.edge? j = some f → f.dst ≠ e.dst := fun j hj f hfe heq =>
    hnew (.of_leads_right (u := f.src) ⟨j, hj, f, hfe, rfl, heq⟩)
  -- nothing leads on from the new node, so no cycle passes it
  have hend : ∀ m, ¬ d.Leads (es.insert i) e.dst m := by
    intro m hm
    rcases leads_insert.mp hm with hm | ⟨f, hfe, hsrc, -⟩
    · exact hnew (.of_leads_left hm)
    · rw [he, Option.some.injEq] at hfe
      exact hne (hfe ▸ hsrc)
  have hold : ∀ a b, TransGen (d.Leads (es.insert i)) a b → b ≠ e.dst →
      TransGen (d.Leads es) a b := by
    intro a b h
    have hstep : ∀ x y, d.Leads (es.insert i) x y → y ≠ e.dst → d.Leads es x y := by
      intro x y hxy hy
      rcases leads_insert.mp hxy with hxy | ⟨f, hfe, -, hdst⟩
      · exact hxy
      · rw [he, Option.some.injEq] at hfe
        exact absurd (hfe ▸ hdst).symm hy
    induction h with
    | single hab => exact fun hb => .single (hstep _ _ hab hb)
    | tail _ hbc ih =>
      intro hc
      exact .tail (ih fun hb => hend _ (hb ▸ hbc)) (hstep _ _ hbc hc)
  constructor
  · intro j hj k hk f g hfj hgk heq
    rcases IdSet.mem_insert.mp hj with hji | hj <;> rcases IdSet.mem_insert.mp hk with hki | hk
    · rw [hji, hki]
    · rw [hji, he, Option.some.injEq] at hfj
      exact absurd (by rw [← heq, hfj]) (hother k hk g hgk)
    · rw [hki, he, Option.some.injEq] at hgk
      exact absurd (by rw [heq, hgk]) (hother j hj f hfj)
    · exact hf.entered_once j hj k hk f g hfj hgk heq
  · intro n hn
    have hne' : n ≠ e.dst := by
      rintro rfl
      obtain ⟨m, hm, -⟩ := TransGen.head'_iff.mp hn
      exact hend m hm
    exact hf.acyclic n (hold n n hn hne')

end IsForest

/-! ## Adding a path -/

/-- Edges one after the other, from a node to a node. -/
inductive IsPath (d : Device) : NodeId → List EdgeId → NodeId → Prop
  | nil (n : NodeId) : IsPath d n [] n
  | cons {s t : NodeId} {i : EdgeId} {e : Edge} {is : List EdgeId} :
      d.edge? i = some e → e.src = s → IsPath d e.dst is t → IsPath d s (i :: is) t

/-- The nodes that edges enter. -/
def entered (d : Device) (is : List EdgeId) : List NodeId := (is.filterMap d.edge?).map Edge.dst

@[simp] theorem entered_nil : d.entered [] = [] := rfl

theorem entered_cons {i : EdgeId} {e : Edge} {is : List EdgeId} (he : d.edge? i = some e) :
    d.entered (i :: is) = e.dst :: d.entered is := by
  simp [entered, he]

theorem entered_append (is js : List EdgeId) :
    d.entered (is ++ js) = d.entered is ++ d.entered js := by
  simp [entered]

theorem mem_entered {is : List EdgeId} :
    n ∈ d.entered is ↔ ∃ i ∈ is, ∃ e, d.edge? i = some e ∧ e.dst = n := by
  simp only [entered, List.mem_map, List.mem_filterMap]
  constructor
  · rintro ⟨e, ⟨i, hi, he⟩, hn⟩
    exact ⟨i, hi, e, he, hn⟩
  · rintro ⟨i, hi, e, he, hn⟩
    exact ⟨e, ⟨i, hi, he⟩, hn⟩

/-- A path may be lengthened at its end. -/
theorem IsPath.snoc {s : NodeId} {is : List EdgeId} {i : EdgeId} {e : Edge}
    (h : d.IsPath s is e.src) (he : d.edge? i = some e) : d.IsPath s (is ++ [i]) e.dst := by
  generalize ht : e.src = t at h
  induction h with
  | nil n => exact .cons he ht (.nil _)
  | cons hf hs _ ih => exact .cons hf hs (ih ht)

/-- **A path that grows out of edges**: it enters each of its nodes once,
does not come back to where it starts, and enters no node that the edges
touch. -/
structure Grows (d : Device) (es : EdgeSet) (s : NodeId) (is : List EdgeId) (t : NodeId) :
    Prop where
  path : d.IsPath s is t
  nodup : (s :: d.entered is).Nodup
  untouched : ∀ n ∈ d.entered is, ¬ d.Touches es n

/-- A path that grows out of edges grows out of them and its first edge. -/
theorem Grows.tail {i : EdgeId} {is : List EdgeId} {s t : NodeId}
    (h : d.Grows es s (i :: is) t) :
    ∃ e, d.edge? i = some e ∧ e.src = s ∧ s ≠ e.dst ∧ ¬ d.Touches es e.dst ∧
      d.Grows (es.insert i) e.dst is t := by
  obtain ⟨hp, hnodup, huntouched⟩ := h
  cases hp with
  | @cons _ _ _ e _ he hs hp =>
  subst hs
  rw [entered_cons he] at hnodup huntouched
  have hstart := (List.nodup_cons.mp hnodup).1
  refine ⟨e, he, rfl, fun heq => hstart (heq ▸ List.mem_cons_self),
    huntouched _ List.mem_cons_self, hp, hnodup.tail, ?_⟩
  · rintro n hn ⟨m, hm⟩
    have hns : n ≠ e.src := fun heq => hstart (List.mem_cons_of_mem _ (heq ▸ hn))
    have hnd : n ≠ e.dst := fun heq => (List.nodup_cons.mp hnodup.tail).1 (heq ▸ hn)
    have hno := huntouched n (List.mem_cons_of_mem _ hn)
    rcases hm with hm | hm <;> rcases leads_insert.mp hm with hm | ⟨f, hfe, hsrc, hdst⟩
    · exact hno (.of_leads_left hm)
    · rw [he, Option.some.injEq] at hfe
      exact hns (by rw [hfe, hsrc])
    · exact hno (.of_leads_right hm)
    · rw [he, Option.some.injEq] at hfe
      exact hnd (by rw [hfe, hdst])

/-- **A forest that a path grows out of stays a forest.** -/
theorem IsForest.of_grows {s t : NodeId} {is : List EdgeId} (hf : d.IsForest es)
    (h : d.Grows es s is t) : d.IsForest (es.union is) := by
  induction is generalizing es s with
  | nil => exact hf
  | cons i is ih =>
    obtain ⟨e, he, rfl, hne, hnew, htail⟩ := h.tail
    exact ih (hf.insert he hnew hne) htail

/-- The edges of a path lead from node to node. -/
theorem IsPath.reflTransGen {s t : NodeId} {is : List EdgeId} (h : d.IsPath s is t)
    (hsub : ∀ i ∈ is, i ∈ es) : ReflTransGen (d.Leads es) s t := by
  induction h with
  | nil n => exact .refl
  | @cons s t i e is he hs _ ih =>
    have hi : d.Leads es s e.dst := ⟨i, hsub i List.mem_cons_self, e, he, hs, rfl⟩
    exact .head hi (ih fun j hj => hsub j (List.mem_cons_of_mem _ hj))

/-- A node that a path enters is its last one, or the path leads on from
it. -/
theorem IsPath.eq_or_leads_on {s t : NodeId} {is : List EdgeId} (h : d.IsPath s is t)
    (hn : n ∈ d.entered is) : n = t ∨ ∃ i ∈ is, ∃ e, d.edge? i = some e ∧ e.src = n := by
  induction h with
  | nil m => simp at hn
  | @cons s t i e is he _ hp ih =>
    rw [entered_cons he] at hn
    rcases List.mem_cons.mp hn with rfl | hn
    · cases hp with
      | nil _ => exact .inl rfl
      | @cons _ _ j f _ hfe hsrc _ =>
        exact .inr ⟨j, List.mem_cons_of_mem _ List.mem_cons_self, f, hfe, hsrc⟩
    · refine (ih hn).imp id ?_
      rintro ⟨j, hj, f, hfe, hsrc⟩
      exact ⟨j, List.mem_cons_of_mem _ hj, f, hfe, hsrc⟩

end Device

end HoldMargin
