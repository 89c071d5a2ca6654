import HoldMargin.Proofs.Fed
import HoldMargin.Proofs.Supplied
/-!
# What a round leaves alone

A node is steady in a round if neither the branch that is taken out nor the
path that is committed enters it. The way to a steady node is made of steady
nodes, so the node has the same length before and after the round. Where
nothing leaves the node of the sink, a connection that is longer than the
one to be repaired is read at a steady node: had the branch entered that
node, the sink would have been at least as far away
(`Round.Moves.length?_after`).
-/

namespace HoldMargin

open Relation

/-- **A steady node:** neither the branch nor the path enters it. -/
structure Device.Steady (d : Device) (branch path : List EdgeId) (n : NodeId) : Prop where
  branch : n ∉ d.entered branch
  path : n ∉ d.entered path

namespace Round.Moves

variable {rd : Round} {p : Placement} {net : NetId} {target : NodeId} {roots : NodeSet}
  {branch path : List EdgeId} {entries : List NodeId} {w : Weighting} {route route' : Route}
  {n u v : NodeId} {k l hops : Nat}

/-- What the path enters is no root and at no end of what was left. -/
theorem fresh (h : rd.Moves p net target roots branch path) (hn : n ∈ p.device.entered path) :
    n ∉ roots ∧ ¬ p.device.Touches (rd.cut.of net) n := by
  rcases h.path with rfl | ⟨rfl, -⟩ | ⟨source, hext⟩
  · simp at hn
  · simp at hn
  · exact ⟨hext.no_root n hn, hext.grows.untouched n hn⟩

/-- A dead end that the path enters is the node of the sink. -/
theorem eq_target_of_mem_path (h : rd.Moves p net target roots branch path)
    (hn : n ∈ p.device.entered path) (hend : p.device.DeadEnd n) : n = target := by
  rcases h.path with rfl | ⟨rfl, -⟩ | ⟨source, hext⟩
  · simp at hn
  · simp at hn
  · rcases hext.grows.path.eq_or_leads_on hn with hn | ⟨i, -, e, he, hsrc⟩
    · exact hn
    · exact absurd hsrc (hend e (Array.mem_of_getElem? he))

/-- Every dead end but the node of the sink is steady. -/
theorem steady_of_deadEnd (h : rd.Moves p net target roots branch path)
    (hend : p.device.DeadEnd n) (hne : n ≠ target) : p.device.Steady branch path n :=
  ⟨fun hn => hne (h.eq_target_of_mem hn hend), fun hn => hne (h.eq_target_of_mem_path hn hend)⟩

/-- What leads to a steady node is steady. -/
theorem steady_of_leads (h : rd.Moves p net target roots branch path)
    (hend : p.device.DeadEnd target) (hl : p.device.Leads (rd.before.of net) u v)
    (hv : p.device.Steady branch path v) : p.device.Steady branch path u := by
  refine ⟨h.not_mem_branch_of_leads hend hl hv.branch, fun hu => ?_⟩
  exact (h.fresh hu).2 (.of_leads_left (h.leads_cut_iff.mpr ⟨hl, hv.branch⟩))

theorem steady_of_reflTransGen (h : rd.Moves p net target roots branch path)
    (hend : p.device.DeadEnd target)
    (hto : ReflTransGen (p.device.Leads (rd.before.of net)) u v)
    (hv : p.device.Steady branch path v) : p.device.Steady branch path u := by
  induction hto using ReflTransGen.head_induction_on with
  | refl => exact hv
  | head hl _ ih => exact h.steady_of_leads hend hl ih

/-- **A round does not change what leads to a steady node.** -/
theorem leads_after_iff (h : rd.Moves p net target roots branch path)
    (hv : p.device.Steady branch path v) :
    p.device.Leads (rd.after.of net) u v ↔ p.device.Leads (rd.before.of net) u v := by
  constructor
  · rintro ⟨i, hi, e, he, hsrc, hdst⟩
    rw [h.after_of, IdSet.mem_union] at hi
    rcases hi with hi | hi
    · exact (h.leads_cut_iff.mp ⟨i, hi, e, he, hsrc, hdst⟩).1
    · exact absurd (Device.mem_entered.mpr ⟨i, hi, e, he, hdst⟩) hv.path
  · exact fun hl => (h.leads_cut_iff.mpr ⟨hl, hv.branch⟩).mono h.mem_after_of_mem_cut

/-- **A steady node keeps its length.** -/
theorem lengthAt_after_iff (h : rd.Moves p net target roots branch path)
    (hend : p.device.DeadEnd target) (hv : p.device.Steady branch path v) :
    p.device.LengthAt w (rd.after.of net) entries v k ↔
      p.device.LengthAt w (rd.before.of net) entries v k := by
  constructor
  · intro hk
    induction hk with
    | root hn => exact .root hn
    | step _ hl hno ht ih =>
      have hl := (h.leads_after_iff hv).mp hl
      exact .step (ih (h.steady_of_leads hend hl hv)) hl hno ht
  · intro hk
    induction hk with
    | root hn => exact .root hn
    | step _ hl hno ht ih =>
      exact .step (ih (h.steady_of_leads hend hl hv)) ((h.leads_after_iff hv).mpr hl) hno ht

/-- A node with a length is steady if the branch does not enter it. -/
theorem steady_of_lengthAt (h : rd.Moves p net target roots branch path)
    (hentries : ∀ n ∈ entries, n ∈ roots)
    (hk : p.device.LengthAt w (rd.before.of net) entries v k)
    (hv : v ∉ p.device.entered branch) : p.device.Steady branch path v := by
  refine ⟨hv, fun hpath => ?_⟩
  cases hk with
  | root hn => exact (h.fresh hpath).1 (hentries v hn)
  | step _ hl _ _ => exact (h.fresh hpath).2 (.of_leads_right (h.leads_cut_iff.mpr ⟨hl, hv⟩))

/-- **A route comes to a steady node through the same node** before and after a
round. -/
theorem feed?_after (h : rd.Moves p net target roots branch path)
    (hend : p.device.DeadEnd target) (hf : p.device.IsForest (rd.before.of net))
    (hd : route.Draws p.device (rd.before.of net)) (hd' : route'.Draws p.device (rd.after.of net))
    (hn : p.device.Steady branch path n) :
    route'.feed? p.device n hops = route.feed? p.device n hops := by
  induction hops generalizing n with
  | zero => rfl
  | succ hops ih =>
    rw [Route.feed?, Route.feed?]
    -- both routes have the same arrival, and it leaves a steady node
    have hleads : ∀ u, route'.Leads u n ↔ route.Leads u n := fun u => by
      rw [hd.leads_iff, hd'.leads_iff, h.leads_after_iff hn]
    cases ha : route.arrival? n with
    | none =>
      rw [Route.arrival?_eq_none] at ha
      rw [Route.arrival?_eq_none.mpr fun u hu => ha u ((hleads u).mp hu), Option.bind_none,
        Option.bind_none]
    | some a =>
      obtain ⟨hmem, rfl⟩ := Route.arrival?_eq_some ha
      have hl : route.Leads a.src a.dst := ⟨a, hmem, rfl, rfl⟩
      obtain ⟨b, hb, hsrc, hdst⟩ := (hleads a.src).mpr hl
      rw [(hd'.arrival?_eq_some_iff (h.isForest_after hf)).mpr ⟨hb, hdst⟩, Option.bind_some,
        Option.bind_some, hsrc, ih (h.steady_of_leads hend (hd.leads_iff.mp hl) hn)]

/-- **A length that is read at a steady node stays the same.** -/
theorem reads_after (h : rd.Moves p net target roots branch path)
    (hend : p.device.DeadEnd target) (hf : p.device.IsForest (rd.before.of net))
    (hd : route.Draws p.device (rd.before.of net)) (hd' : route'.Draws p.device (rd.after.of net))
    (hn : p.device.Steady branch path n)
    (hv : p.device.LengthAt w (rd.before.of net) entries v k → p.device.Steady branch path v)
    (hk : route.Reads p.device w (rd.before.of net) entries v n k) :
    route'.Reads p.device w (rd.after.of net) entries v n k := by
  unfold Route.Reads
  rw [h.feed?_after hend hf hd hd' hn]
  have hfeed : ∀ u, route.feed? p.device n projectionReach = some u →
      p.device.Steady branch path u := fun u hu =>
    h.steady_of_reflTransGen hend (Route.feed?_eq_some hd hu) hn
  rcases hk with ⟨u, hu, hk⟩ | ⟨hno, hk⟩
  · exact .inl ⟨u, hu, (h.lengthAt_after_iff hend (hfeed u hu)).mpr hk⟩
  · exact .inr ⟨fun u hu l hl => hno u hu l ((h.lengthAt_after_iff hend (hfeed u hu)).mp hl),
      (h.lengthAt_after_iff hend (hv hk)).mpr hk⟩

/-- The branch leads to nodes of the branch only. -/
theorem mem_branch_of_reflTransGen (h : rd.Moves p net target roots branch path)
    (hend : p.device.DeadEnd target) (hu : u ∈ p.device.entered branch)
    (hto : ReflTransGen (p.device.Leads (rd.before.of net)) u v) :
    v ∈ p.device.entered branch := by
  induction hto with
  | refl => exact hu
  | tail _ hl ih => exact h.trims.closed (fun w => hend.not_leads w) ih hl

/-- **A round leaves longer connections alone.** In a round for the sink `x`
at `target` every connection of the net that is longer keeps its length, if
its own sink is a dead end. -/
theorem length?_after {x a : PinId} {m m' : MeasuredNet}
    (h : rd.Moves p net target roots branch path) (hend : p.device.DeadEnd target)
    (hf : p.device.IsForest (rd.before.of net)) (hroots : p.rootsOfNet net = .ok roots)
    (htarget : p.pinNode x = .ok target)
    (hmeets : p.device.meetsFabric target projectionReach = true)
    (ha : ∀ node, p.pinNode a = .ok node → p.device.DeadEnd node)
    (hm : (p.measureNet w rd.before net).outcome = .ok m)
    (hm' : (p.measureNet w rd.after net).outcome = .ok m')
    (hl : m.length? x = some l) (hk : m.length? a = some k) (hlt : l < k) :
    m'.length? a = some k := by
  obtain ⟨cs, route, hs⟩ := Placement.exists_surveys hm hf
  obtain ⟨cs', route', hs'⟩ := Placement.exists_surveys hm' (h.isForest_after hf)
  have hcs := hs'.connections
  rw [hs.connections, Except.ok.injEq] at hcs
  subst hcs
  obtain ⟨xnode, xproj, hxexits, hxreads⟩ := (hs.length x l).mp hl
  obtain ⟨node, proj, hexits, hreads⟩ := (hs.length a k).mp hk
  have hxnode := hxexits.at_node
  rw [htarget, Except.ok.injEq] at hxnode
  subst hxnode
  have hentries : ∀ n ∈ (entryNodes cs).toList, n ∈ roots := fun n hn =>
    Placement.mem_roots_of_entry hs.connections hroots hn
  -- two sinks at one node are of one length
  have hne : node ≠ target := by
    rintro rfl
    have hproj := hexits.projects
    rw [hxexits.projects, Option.some.injEq] at hproj
    rw [hproj] at hxreads
    exact absurd (hreads.unique hf hxreads) (by omega)
  have hsteady := h.steady_of_deadEnd (ha node hexits.at_node) hne
  refine (hs'.length a k).mpr ⟨node, proj, hexits, ?_⟩
  refine h.reads_after hend hf hs.draws hs'.draws hsteady (fun hlength => ?_) hreads
  refine h.steady_of_lengthAt hentries hlength fun hbranch => ?_
  -- the branch would lead from there to the sink, which is nearer
  have hfree : ∀ v, ReflTransGen (p.device.Leads (rd.before.of net)) proj v →
      v ∉ (entryNodes cs).toList := fun v hto hv =>
    h.trims.no_root v (h.mem_branch_of_reflTransGen hend hbranch hto) (hentries v hv)
  have hle := hxreads.le hs.draws hf hs.known hmeets (Device.isFabric_of_project? hexits.projects)
    (h.trims.leads_down _ hbranch) hfree hlength
  omega

end Round.Moves

end HoldMargin
