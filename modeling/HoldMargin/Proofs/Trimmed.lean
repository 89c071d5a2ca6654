import HoldMargin.Proofs.Drawn
/-!
# What is trimmed with a sink

The branch of a sink is a way up from its node: each edge enters the node
that the edge before it leaves (`Device.Ascends`). Seen from the edges of the
net, `Device.Trims` says what is lost with it. Every edge into a node of the
branch goes, and from a node of the branch that is not the sink's own the
route leads on to nodes of the branch only. On a forest the way up never
comes back to itself, so there a branch is always found.
-/

namespace HoldMargin

open Relation

namespace Device

variable {d : Device} {es : EdgeSet} {roots : NodeSet} {target u v n : NodeId} {ks : List EdgeId}

/-- **A way up from a node** along committed edges, the lowest edge first.
It enters no root, and the nodes it passes do not fan out. -/
inductive Ascends (d : Device) (es : EdgeSet) (roots : NodeSet) : NodeId → List EdgeId → Prop
  | stop (n : NodeId) : Ascends d es roots n []
  | step {i : EdgeId} {e : Edge} {ks : List EdgeId} : i ∈ es → d.edge? i = some e →
      e.dst ∉ roots → (ks = [] ∨ ∀ v, d.Leads es e.src v → v = e.dst) →
      Ascends d es roots e.src ks → Ascends d es roots e.dst (i :: ks)

namespace Ascends

theorem committed (h : d.Ascends es roots target ks) : ∀ k ∈ ks, k ∈ es := by
  induction h with
  | stop _ => simp
  | step hi _ _ _ _ ih =>
    intro k hk
    rcases List.mem_cons.mp hk with rfl | hk
    · exact hi
    · exact ih k hk

theorem no_root (h : d.Ascends es roots target ks) : ∀ n ∈ d.entered ks, n ∉ roots := by
  induction h with
  | stop _ => simp
  | step _ he hroot _ _ ih =>
    intro n hn
    rw [entered_cons he] at hn
    rcases List.mem_cons.mp hn with rfl | hn
    · exact hroot
    · exact ih n hn

/-- On a forest, all that enters a node of the way up belongs to it. -/
theorem all_entering (h : d.Ascends es roots target ks) (hf : d.IsForest es) :
    ∀ i ∈ es, ∀ e, d.edge? i = some e → e.dst ∈ d.entered ks → i ∈ ks := by
  intro i hi e he hmem
  obtain ⟨k, hk, f, hfe, hdst⟩ := mem_entered.mp hmem
  rwa [hf.entered_once i hi k (h.committed k hk) e f he hfe hdst.symm]

theorem no_fan_out (h : d.Ascends es roots target ks) :
    ∀ u ∈ d.entered ks, u ≠ target → ∀ v, d.Leads es u v → v ∈ d.entered ks := by
  induction h with
  | stop _ => simp
  | @step i e ks _ he _ hone _ ih =>
    intro u hu hne v hl
    rw [entered_cons he] at hu ⊢
    -- the node just above does not fan out; those higher up are for the induction
    have hup : u ∈ d.entered ks := (List.mem_cons.mp hu).resolve_left hne
    by_cases hsrc : u = e.src
    · subst hsrc
      have hks : ks ≠ [] := fun hnil => by rw [hnil] at hup; cases hup
      exact hone.resolve_left hks v hl ▸ List.mem_cons_self
    · exact List.mem_cons_of_mem _ (ih u hup hsrc v hl)

theorem leads_down (h : d.Ascends es roots target ks) :
    ∀ n ∈ d.entered ks, ReflTransGen (d.Leads es) n target := by
  induction h with
  | stop _ => simp
  | @step i e ks hi he _ _ _ ih =>
    intro n hn
    rw [entered_cons he] at hn
    rcases List.mem_cons.mp hn with rfl | hn
    · exact .refl
    · exact (ih n hn).tail ⟨i, hi, e, he, rfl, rfl⟩

/-- A way up that is not empty enters the node that it starts at. -/
theorem mem_entered (h : d.Ascends es roots target ks) (hne : ks ≠ []) : target ∈ d.entered ks := by
  cases h with
  | stop _ => exact absurd rfl hne
  | step _ he _ _ _ => rw [entered_cons he]; exact List.mem_cons_self

end Ascends

/-- **What is trimmed with a sink** at the node `target`. -/
structure Trims (d : Device) (es : EdgeSet) (roots : NodeSet) (target : NodeId)
    (ks : List EdgeId) : Prop where
  committed : ∀ k ∈ ks, k ∈ es
  no_root : ∀ n ∈ d.entered ks, n ∉ roots
  /-- Nothing of the route is left that enters a node of the branch. -/
  all_entering : ∀ i ∈ es, ∀ e, d.edge? i = some e → e.dst ∈ d.entered ks → i ∈ ks
  /-- The branch does not fan out. -/
  no_fan_out : ∀ u ∈ d.entered ks, u ≠ target → ∀ v, d.Leads es u v → v ∈ d.entered ks
  leads_down : ∀ n ∈ d.entered ks, ReflTransGen (d.Leads es) n target
  /-- The node of the sink is entered no longer, unless it is a root. -/
  bare : target ∈ roots ∨ ∀ u, ¬ d.Leads (es.diff ks) u target

/-- **On a forest, what a way up takes is trimmed**, if the way is empty only
where there is nothing to take. -/
theorem Ascends.trims (h : d.Ascends es roots target ks) (hf : d.IsForest es)
    (hnil : ks = [] → target ∈ roots ∨ ∀ u, ¬ d.Leads es u target) :
    d.Trims es roots target ks := by
  refine ⟨h.committed, h.no_root, h.all_entering hf, h.no_fan_out, h.leads_down, ?_⟩
  -- only the lowest edge of the way up enters the node of the sink
  by_cases hks : ks = []
  · refine (hnil hks).imp id fun hno u hu => hno u (hu.mono fun i hi => ?_)
    exact (IdSet.mem_diff.mp hi).1
  · right
    rintro u ⟨i, hi, e, he, -, rfl⟩
    rw [IdSet.mem_diff] at hi
    exact hi.2 (h.all_entering hf i hi.1 e he (h.mem_entered hks))

namespace Trims

/-- **The arcs left are those that enter no node of the branch.** -/
theorem leads_diff_iff (h : d.Trims es roots target ks) :
    d.Leads (es.diff ks) u v ↔ d.Leads es u v ∧ v ∉ d.entered ks := by
  constructor
  · rintro ⟨i, hi, e, he, hsrc, rfl⟩
    rw [IdSet.mem_diff] at hi
    exact ⟨⟨i, hi.1, e, he, hsrc, rfl⟩, fun hmem => hi.2 (h.all_entering i hi.1 e he hmem)⟩
  · rintro ⟨⟨i, hi, e, he, hsrc, rfl⟩, hno⟩
    refine ⟨i, IdSet.mem_diff.mpr ⟨hi, fun hk => hno ?_⟩, e, he, hsrc, rfl⟩
    exact mem_entered.mpr ⟨i, hk, e, he, rfl⟩

/-- Where nothing leaves the node of the sink, the route leads from the
branch to the branch only. -/
theorem closed (h : d.Trims es roots target ks) (hleaf : ∀ v, ¬ d.Leads es target v)
    (hu : u ∈ d.entered ks) (hl : d.Leads es u v) : v ∈ d.entered ks := by
  by_cases hut : u = target
  · exact absurd hl (hut ▸ hleaf v)
  · exact h.no_fan_out u hu hut v hl

end Trims

end Device

namespace Route

variable {r : Route} {d : Device} {es : EdgeSet} {roots : NodeSet} {seen : List NodeId}
  {node n : NodeId} {ks : List EdgeId} {steps : Nat}

theorem ascends_of_climb (hd : r.Draws d es) (h : r.climb roots seen node steps = .ok ks) :
    d.Ascends es roots node ks := by
  induction steps generalizing seen node ks with
  | zero =>
    cases h
    exact .stop _
  | succ steps ih =>
    rw [climb] at h
    split at h
    · cases h
      exact .stop _
    · rename_i hroot
      split at h
      · cases h
        exact .stop _
      · rename_i a ha
        obtain ⟨hmem, rfl⟩ := arrival?_eq_some ha
        obtain ⟨hi, e, he, hsrc, hdst⟩ := hd.edge a hmem
        rw [← hsrc] at h
        rw [← hdst] at hroot ⊢
        split at h
        · cases h
        · split at h
          · cases h
            exact .step hi he hroot (.inl rfl) (.stop _)
          · rename_i hgo
            rw [not_or] at hgo
            cases hup : r.climb roots (e.src :: seen) e.src steps with
            | error n => rw [hup] at h; cases h
            | ok up =>
              rw [hup] at h
              cases h
              refine .step hi he hroot (.inr fun v hv => ?_) (ih hup)
              rw [← hd.leads_iff] at hv
              exact eq_of_length_successors_le (Nat.le_of_not_lt hgo.1) hv
                ⟨a, hmem, hsrc.symm, hdst.symm⟩

/-- **A way up that comes back to a node** is on a cycle there. -/
theorem transGen_of_climb (h : r.climb roots seen node steps = .error n)
    (hseen : ∀ m ∈ seen, ReflTransGen r.Leads node m) : TransGen r.Leads n n := by
  induction steps generalizing seen node with
  | zero => cases h
  | succ steps ih =>
    rw [climb] at h
    split at h
    · cases h
    · split at h
      · cases h
      · rename_i a ha
        obtain ⟨hmem, rfl⟩ := arrival?_eq_some ha
        have hl : r.Leads a.src a.dst := ⟨a, hmem, rfl, rfl⟩
        split at h
        · -- what was seen is below, so coming back to it closes a cycle
          rename_i hs
          cases h
          exact .head' hl (hseen a.src hs)
        · split at h
          · cases h
          · have hup : ∀ m ∈ a.src :: seen, ReflTransGen r.Leads a.src m := by
              intro m hm
              rcases List.mem_cons.mp hm with rfl | hm
              · exact .refl
              · exact .head hl (hseen m hm)
            cases hclimb : r.climb roots (a.src :: seen) a.src steps with
            | ok up => rw [hclimb] at h; cases h
            | error m =>
              rw [hclimb] at h
              cases h
              exact ih hclimb hup

/-- A branch is empty only where there is nothing to trim. -/
theorem branch_eq_nil (h : r.branch roots node = .ok []) :
    node ∈ roots ∨ ∀ u, ¬ r.Leads u node := by
  rw [branch, climb] at h
  split at h
  · exact .inl ‹_›
  · split at h
    · exact .inr (arrival?_eq_none.mp ‹_›)
    · split at h
      · cases h
      · split at h
        · cases h
        · cases hup : r.climb roots _ _ r.arcs.length with
          | error n => rw [hup] at h; cases h
          | ok up => rw [hup] at h; cases h

end Route

namespace Placement

variable {p : Placement} {r : Routing} {net : NetId} {sink : PinId} {ks : List EdgeId}

/-- **A branch that is found** is one of the route. -/
theorem branch_eq_ok (h : p.branch r net sink = .ok ks) :
    ∃ target roots, ∃ route : Route, p.pinNode sink = .ok target ∧ p.rootsOfNet net = .ok roots ∧
      route.Draws p.device (r.of net) ∧ route.branch roots target = .ok ks := by
  obtain ⟨target, htarget, h⟩ := bind_eq_ok.mp h
  obtain ⟨route, hroute, h⟩ := bind_eq_ok.mp h
  obtain ⟨roots, hroots, h⟩ := bind_eq_ok.mp h
  refine ⟨target, roots, route, htarget, hroots, draws_of_routeOfNet hroute, ?_⟩
  cases hb : route.branch roots target with
  | ok ks' =>
    rw [hb] at h
    cases h
    rfl
  | error n =>
    rw [hb] at h
    obtain ⟨_, -, h⟩ := bind_eq_ok.mp h
    cases h

/-- **The branch of a sink is what is trimmed with it.** -/
theorem trims_of_branch (h : p.branch r net sink = .ok ks) (hf : p.device.IsForest (r.of net)) :
    ∃ target roots, p.pinNode sink = .ok target ∧ p.rootsOfNet net = .ok roots ∧
      p.device.Trims (r.of net) roots target ks := by
  obtain ⟨target, roots, route, htarget, hroots, hd, hb⟩ := branch_eq_ok h
  refine ⟨target, roots, htarget, hroots, (Route.ascends_of_climb hd hb).trims hf fun hnil => ?_⟩
  rw [← hd.leads_eq]
  exact Route.branch_eq_nil (hnil ▸ hb)

end Placement

end HoldMargin
