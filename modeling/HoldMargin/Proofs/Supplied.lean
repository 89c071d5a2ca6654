import HoldMargin.Proofs.Moved
/-!
# Which nodes a round leaves supplied

Where nothing leaves the node of a sink, the branch of the sink leads to
nodes of the branch only, and the only one of them that can be the end of a
route is the node of the sink itself. Every other dead end stays supplied
through a round (`Round.Moves.supplies_after`). The sink is supplied again
if it is served from something that is supplied, and that is why a route
must have no loose ends: they would be as good a source as any
(`Round.Moves.supplies_target`).
-/

namespace HoldMargin

open Relation

namespace Device

variable {d : Device} {es : EdgeSet} {roots : NodeSet} {n : NodeId}

/-- **A dead end**: no edge of the device leaves the node. -/
def DeadEnd (d : Device) (n : NodeId) : Prop := ∀ e ∈ d.edges, e.src ≠ n

instance : Decidable (d.DeadEnd n) := inferInstanceAs (Decidable (∀ e ∈ d.edges, e.src ≠ n))

/-- **A route without loose ends**: every node it touches is supplied. -/
def Attached (d : Device) (es : EdgeSet) (roots : NodeSet) : Prop :=
  ∀ n, d.Touches es n → d.Supplies es roots n

/-- Edges that are in the device. -/
def Knows (d : Device) (es : EdgeSet) : Prop := ∀ i ∈ es, ∃ e, d.edge? i = some e

theorem DeadEnd.not_leads (h : d.DeadEnd n) (m : NodeId) : ¬ d.Leads es n m := by
  rintro ⟨i, -, e, he, hsrc, -⟩
  exact h e (Array.mem_of_getElem? he) hsrc

/-- A dead end leads to itself only. -/
theorem DeadEnd.eq_of_reflTransGen (h : d.DeadEnd n) {m : NodeId}
    (hm : ReflTransGen (d.Leads es) n m) : n = m := by
  rcases ReflTransGen.cases_head hm with rfl | ⟨k, hk, -⟩
  · rfl
  · exact absurd hk (h.not_leads k)

/-! ## Paths -/

namespace IsPath

variable {s t : NodeId} {is : List EdgeId} {i : EdgeId} {e : Edge}

theorem knows (h : d.IsPath s is t) : ∀ i ∈ is, ∃ e, d.edge? i = some e := by
  induction h with
  | nil _ => simp
  | @cons _ _ i e is he _ _ ih =>
    intro j hj
    rcases List.mem_cons.mp hj with rfl | hj
    · exact ⟨e, he⟩
    · exact ih j hj

/-- The edges of a path lead to each of its nodes. -/
theorem leads_to (h : d.IsPath s is t) (hsub : ∀ i ∈ is, i ∈ es)
    (hn : n ∈ s :: d.entered is) : ReflTransGen (d.Leads es) s n := by
  induction h with
  | nil s =>
    rw [entered_nil, List.mem_singleton] at hn
    exact hn ▸ .refl
  | @cons s t i e is he hs _ ih =>
    rcases List.mem_cons.mp hn with rfl | hn
    · exact .refl
    · rw [entered_cons he] at hn
      have hstep : d.Leads es s e.dst := ⟨i, hsub i List.mem_cons_self, e, he, hs, rfl⟩
      exact .head hstep (ih (fun j hj => hsub j (List.mem_cons_of_mem _ hj)) hn)

/-- The ends of the edges of a path are nodes of the path. -/
theorem ends_mem (h : d.IsPath s is t) (hi : i ∈ is) (he : d.edge? i = some e) :
    e.src ∈ s :: d.entered is ∧ e.dst ∈ d.entered is := by
  refine ⟨?_, mem_entered.mpr ⟨i, hi, e, he, rfl⟩⟩
  induction h with
  | nil _ => cases hi
  | @cons s t j f is hf hs _ ih =>
    rcases List.mem_cons.mp hi with rfl | hi
    · rw [he, Option.some.injEq] at hf
      rw [hf, hs]
      exact List.mem_cons_self
    · rw [entered_cons hf]
      exact List.mem_cons_of_mem _ (ih hi)

/-- A path ends at one of its nodes. -/
theorem target_mem (h : d.IsPath s is t) : t ∈ s :: d.entered is := by
  induction h with
  | nil _ => exact List.mem_cons_self
  | @cons s t i e is he _ _ ih =>
    rw [entered_cons he]
    exact List.mem_cons_of_mem _ ih

/-- A path has one start. -/
theorem source_unique {s' : NodeId} (h : d.IsPath s is t) (h' : d.IsPath s' is t) : s = s' := by
  cases h with
  | nil =>
    cases h'
    rfl
  | cons he hs _ =>
    cases h' with
    | cons he' hs' _ =>
      rw [he, Option.some.injEq] at he'
      exact hs.symm.trans (he' ▸ hs')

/-- With a path added, edges touch what they touched before and the nodes of the
path. -/
theorem touches_union (h : d.IsPath s is t) (hn : d.Touches (es.union is) n) :
    d.Touches es n ∨ n ∈ s :: d.entered is := by
  obtain ⟨m, ⟨i, hi, e, he, hsrc, hdst⟩ | ⟨i, hi, e, he, hsrc, hdst⟩⟩ := hn <;>
    rcases IdSet.mem_union.mp hi with hi | hi
  · exact .inl (.of_leads_left ⟨i, hi, e, he, hsrc, hdst⟩)
  · exact .inr (hsrc ▸ (h.ends_mem hi he).1)
  · exact .inl (.of_leads_right ⟨i, hi, e, he, hsrc, hdst⟩)
  · exact .inr (hdst ▸ List.mem_cons_of_mem _ (h.ends_mem hi he).2)

end IsPath

/-- **A route that is extended stays without loose ends.** -/
theorem Attached.extends {source target : NodeId} {path : List EdgeId}
    (h : d.Attached es roots) (hext : d.Extends es roots source path target) :
    d.Attached (es.union path) roots := by
  have hsub : ∀ i ∈ es, i ∈ es.union path := fun i hi => IdSet.mem_union.mpr (.inl hi)
  have hpath : ∀ i ∈ path, i ∈ es.union path := fun i hi => IdSet.mem_union.mpr (.inr hi)
  have hsource : d.Supplies (es.union path) roots source := by
    rcases hext.attached with hroot | htouch
    · exact supplies_of_mem hroot
    · exact (h source htouch).mono hsub
  have hnode : ∀ n ∈ source :: d.entered path, d.Supplies (es.union path) roots n := by
    intro n hn
    obtain ⟨root, hroot, hto⟩ := hsource
    exact ⟨root, hroot, hto.trans (hext.grows.path.leads_to hpath hn)⟩
  intro n ht
  rcases hext.grows.path.touches_union ht with ht | hn
  · exact (h n ht).mono hsub
  · exact hnode n hn

end Device

namespace Placement

variable {p : Placement} {net : NetId}

/-- The nodes of the sinks of a net, as far as they are known. -/
def sinkNodes (p : Placement) (net : NetId) : List NodeId :=
  (p.netlist.net? net).toList.flatMap fun n => n.sinks.filterMap fun sink =>
    (p.pinNode sink).toOption

theorem mem_sinkNodes {n : Net} {sink : PinId} {node : NodeId}
    (hn : p.netlist.net? net = some n) (hsink : sink ∈ n.sinks)
    (hnode : p.pinNode sink = .ok node) : node ∈ p.sinkNodes net := by
  rw [sinkNodes, hn, Option.toList_some, List.flatMap_singleton, List.mem_filterMap]
  exact ⟨sink, hsink, by rw [hnode, Except.toOption]⟩

/-- **A net whose sinks are dead ends.** -/
def EndsInSinks (p : Placement) (net : NetId) : Prop := ∀ n ∈ p.sinkNodes net, p.device.DeadEnd n

instance : Decidable (p.EndsInSinks net) :=
  inferInstanceAs (Decidable (∀ n ∈ p.sinkNodes net, p.device.DeadEnd n))

end Placement

namespace Round.Moves

variable {rd : Round} {p : Placement} {net : NetId} {target : NodeId} {roots : NodeSet}
  {branch path : List EdgeId} {n u v : NodeId}

theorem leads_cut_iff (h : rd.Moves p net target roots branch path) :
    p.device.Leads (rd.cut.of net) u v ↔
      p.device.Leads (rd.before.of net) u v ∧ v ∉ p.device.entered branch := by
  rw [h.cut_of]
  exact h.trims.leads_diff_iff

/-- What leads to a node off the branch is off the branch. -/
theorem not_mem_branch_of_leads (h : rd.Moves p net target roots branch path)
    (hend : p.device.DeadEnd target) (hl : p.device.Leads (rd.before.of net) u v)
    (hv : v ∉ p.device.entered branch) : u ∉ p.device.entered branch :=
  fun hu => hv (h.trims.closed (fun w => hend.not_leads w) hu hl)

/-- **Off the branch everything stays supplied** when the branch is taken
out. -/
theorem supplies_cut (h : rd.Moves p net target roots branch path)
    (hend : p.device.DeadEnd target) (hs : p.device.Supplies (rd.before.of net) roots n)
    (hn : n ∉ p.device.entered branch) : p.device.Supplies (rd.cut.of net) roots n := by
  obtain ⟨root, hroot, hto⟩ := hs
  refine ⟨root, hroot, ?_⟩
  induction hto with
  | refl => exact .refl
  | tail _ hl ih =>
    exact (ih (h.not_mem_branch_of_leads hend hl hn)).tail (h.leads_cut_iff.mpr ⟨hl, hn⟩)

/-- A dead end on the branch is the node of the sink. -/
theorem eq_target_of_mem (h : rd.Moves p net target roots branch path)
    (hn : n ∈ p.device.entered branch) (hend : p.device.DeadEnd n) : n = target :=
  hend.eq_of_reflTransGen (h.trims.leads_down n hn)

theorem mem_after_of_mem_cut (h : rd.Moves p net target roots branch path) :
    ∀ i ∈ rd.cut.of net, i ∈ rd.after.of net := by
  intro i hi
  rw [h.after_of]
  exact IdSet.mem_union.mpr (.inl hi)

/-- **Every dead end but the sink's stays supplied through a round.** -/
theorem supplies_after (h : rd.Moves p net target roots branch path)
    (hend : p.device.DeadEnd target) (hn : p.device.DeadEnd n) (hne : n ≠ target)
    (hs : p.device.Supplies (rd.before.of net) roots n) :
    p.device.Supplies (rd.after.of net) roots n :=
  (h.supplies_cut hend hs fun hmem => hne (h.eq_target_of_mem hmem hn)).mono h.mem_after_of_mem_cut

theorem attached_cut (h : rd.Moves p net target roots branch path)
    (hend : p.device.DeadEnd target) (ha : p.device.Attached (rd.before.of net) roots) :
    p.device.Attached (rd.cut.of net) roots := by
  rintro n ⟨m, hm⟩
  have hoff : n ∉ p.device.entered branch := by
    rcases hm with hm | hm
    · obtain ⟨hl, hv⟩ := h.leads_cut_iff.mp hm
      exact h.not_mem_branch_of_leads hend hl hv
    · exact (h.leads_cut_iff.mp hm).2
  have htouch : p.device.Touches (rd.before.of net) n :=
    ⟨m, hm.imp (fun hl => (h.leads_cut_iff.mp hl).1) fun hl => (h.leads_cut_iff.mp hl).1⟩
  exact h.supplies_cut hend (ha n htouch) hoff

/-- **A round leaves no loose ends** where there were none. -/
theorem attached_after (h : rd.Moves p net target roots branch path)
    (hend : p.device.DeadEnd target) (ha : p.device.Attached (rd.before.of net) roots) :
    p.device.Attached (rd.after.of net) roots := by
  have hcut := h.attached_cut hend ha
  rw [h.after_of]
  rcases h.path with rfl | ⟨rfl, -⟩ | ⟨source, hext⟩
  · exact hcut
  · exact hcut
  · exact hcut.extends hext

/-- **A sink that is served is supplied**, on a route without loose ends. -/
theorem supplies_target (h : rd.Moves p net target roots branch path)
    (hend : p.device.DeadEnd target) (ha : p.device.Attached (rd.before.of net) roots)
    (hserves : p.device.Serves (rd.cut.of net) roots path target) :
    p.device.Supplies (rd.after.of net) roots target := by
  rcases hserves with ⟨-, hs⟩ | ⟨source, hext⟩
  · exact hs.mono h.mem_after_of_mem_cut
  · have hsub : ∀ i ∈ path, i ∈ rd.after.of net := fun i hi => by
      rw [h.after_of]
      exact IdSet.mem_union.mpr (.inr hi)
    -- the path starts at a root or where the cut route is supplied
    have hsource : p.device.Supplies (rd.after.of net) roots source := by
      rcases hext.attached with hroot | htouch
      · exact Device.supplies_of_mem hroot
      · exact ((h.attached_cut hend ha) source htouch).mono h.mem_after_of_mem_cut
    obtain ⟨root, hroot, hto⟩ := hsource
    exact ⟨root, hroot, hto.trans (hext.grows.path.reflTransGen hsub)⟩

theorem knows_after (h : rd.Moves p net target roots branch path)
    (hk : p.device.Knows (rd.before.of net)) : p.device.Knows (rd.after.of net) := by
  intro i hi
  rw [h.after_of] at hi
  rcases IdSet.mem_union.mp hi with hi | hi
  · rw [h.cut_of] at hi
    exact hk i (IdSet.mem_diff.mp hi).1
  · rcases h.path with rfl | ⟨rfl, -⟩ | ⟨source, hext⟩
    · cases hi
    · cases hi
    · exact hext.grows.path.knows i hi

end Round.Moves

end HoldMargin
