import HoldMargin.Proofs.Drawn
/-!
# What a walk reaches

The breadth-first walk over a route meets a node exactly if the arcs lead
there from a root (`Route.reaches_iff`). Two facts carry this. Every visit
goes on from a root or from a node visited before (`Explores`), so nothing
is met that the arcs do not lead to. And a round that finds something new
uses up an arc, so that after as many rounds as there are arcs the nodes
met are closed under the arcs (`leads_walkFrom`) and further rounds find nothing
(`walkFrom_add`).
-/

namespace HoldMargin.Route

open Relation

variable {r : Route} {seen seen' frontier roots : List NodeId} {vs ws : List Visit} {m n : NodeId}

/-- **Visits that go on from what was seen**, each from a node seen before
to one that was not. -/
inductive Explores (r : Route) : List NodeId → List Visit → Prop
  | nil (seen : List NodeId) : Explores r seen []
  | cons {seen : List NodeId} {v : Visit} {vs : List Visit} :
      v.src ∈ seen → v.node ∉ seen → r.Leads v.src v.node → Explores r (v.node :: seen) vs →
      Explores r seen (v :: vs)

/-- What was seen matters by its members only. -/
theorem Explores.congr (h : r.Explores seen vs) (hs : ∀ n, n ∈ seen ↔ n ∈ seen') :
    r.Explores seen' vs := by
  induction h generalizing seen' with
  | nil => exact .nil _
  | cons hsrc hnode hl _ ih =>
    refine .cons ((hs _).mp hsrc) (fun h => hnode ((hs _).mpr h)) hl (ih fun n => ?_)
    simp only [List.mem_cons, hs n]

theorem Explores.append (h : r.Explores seen vs)
    (h' : r.Explores (seen ++ vs.map Visit.node) ws) : r.Explores seen (vs ++ ws) := by
  induction h with
  | nil => simpa using h'
  | @cons seen v vs hsrc hnode hl _ ih =>
    refine .cons hsrc hnode hl (ih (h'.congr fun n => ?_))
    simp only [List.map_cons, List.mem_append, List.mem_cons]
    grind

theorem explores_firstVisits (h : ∀ v ∈ vs, v.src ∈ seen ∧ r.Leads v.src v.node) :
    r.Explores seen (firstVisits seen vs) := by
  induction vs generalizing seen with
  | nil => exact .nil _
  | cons v vs ih =>
    have hrest : ∀ w ∈ vs, w.src ∈ seen ∧ r.Leads w.src w.node := fun w hw =>
      h w (List.mem_cons_of_mem _ hw)
    rw [firstVisits]
    split
    · exact ih hrest
    · rename_i hnode
      obtain ⟨hsrc, hl⟩ := h v List.mem_cons_self
      exact .cons hsrc hnode hl
        (ih fun w hw => ⟨List.mem_cons_of_mem _ (hrest w hw).1, (hrest w hw).2⟩)

theorem mem_departures {v : Visit} :
    v ∈ r.departures frontier ↔ v.src ∈ frontier ∧ r.Leads v.src v.node := by
  simp only [departures, List.mem_flatMap, List.mem_map, mem_successors]
  constructor
  · rintro ⟨n, hn, m, hm, rfl⟩
    exact ⟨hn, hm⟩
  · rintro ⟨hn, hm⟩
    exact ⟨v.src, hn, v.node, hm, rfl⟩

theorem explores_walkFrom (hsub : ∀ n ∈ frontier, n ∈ seen) (rounds : Nat) :
    r.Explores seen (r.walkFrom seen frontier rounds) := by
  induction rounds generalizing seen frontier with
  | zero => exact .nil _
  | succ rounds ih =>
    rw [walkFrom]
    refine (explores_firstVisits fun v hv => ?_).append
      (ih fun n hn => List.mem_append_right _ hn)
    obtain ⟨hsrc, hl⟩ := mem_departures.mp hv
    exact ⟨hsub _ hsrc, hl⟩

/-- **No visit strays:** whatever is closed under the arcs and holds what was
seen holds what is visited. -/
theorem Explores.mem_of_closed {P : NodeId → Prop} (h : r.Explores seen vs)
    (hseen : ∀ n ∈ seen, P n) (hclosed : ∀ m n, P m → r.Leads m n → P n) {v : Visit}
    (hv : v ∈ vs) : P v.node := by
  induction h with
  | nil => cases hv
  | cons hsrc _ hl _ ih =>
    have hw := hclosed _ _ (hseen _ hsrc) hl
    rcases List.mem_cons.mp hv with rfl | hv
    · exact hw
    · refine ih (fun n hn => ?_) hv
      rcases List.mem_cons.mp hn with rfl | hn
      · exact hw
      · exact hseen n hn

theorem Explores.not_mem (h : r.Explores seen vs) {v : Visit} (hv : v ∈ vs) : v.node ∉ seen := by
  induction h with
  | nil => cases hv
  | cons _ hnode _ _ ih =>
    rcases List.mem_cons.mp hv with rfl | hv
    · exact hnode
    · exact fun hmem => ih hv (List.mem_cons_of_mem _ hmem)

/-- Every visit follows an arc. -/
theorem Explores.leads (h : r.Explores seen vs) {v : Visit} (hv : v ∈ vs) :
    r.Leads v.src v.node := by
  induction h with
  | nil => cases hv
  | cons _ _ hl _ ih =>
    rcases List.mem_cons.mp hv with rfl | hv
    · exact hl
    · exact ih hv

/-- No node is visited twice. -/
theorem Explores.nodup (h : r.Explores seen vs) : (vs.map Visit.node).Nodup := by
  induction h with
  | nil => exact List.nodup_nil
  | cons _ _ _ hrest ih =>
    refine List.nodup_cons.mpr ⟨fun hmem => ?_, ih⟩
    obtain ⟨w, hw, hwv⟩ := List.mem_map.mp hmem
    exact hrest.not_mem hw (hwv ▸ List.mem_cons_self)

/-! ## Rounds enough -/

/-- The arcs to nodes that have not been seen. -/
def unseenArcs (r : Route) (seen : List NodeId) : Nat := r.arcs.countP fun a => a.dst ∉ seen

theorem walkFrom_nil (rounds : Nat) : r.walkFrom seen [] rounds = [] := by
  induction rounds generalizing seen with
  | zero => rfl
  | succ rounds ih => simp [walkFrom, departures, firstVisits, ih]

/-- Seeing the node of an arc uses up the arc. -/
theorem unseenArcs_lt (hsub : ∀ i ∈ seen, i ∈ seen') (hl : r.Leads m n) (hn : n ∉ seen)
    (hn' : n ∈ seen') : r.unseenArcs seen' < r.unseenArcs seen := by
  obtain ⟨a, ha, -, rfl⟩ := hl
  unfold unseenArcs
  rw [List.countP_eq_length_filter, List.countP_eq_length_filter]
  have hsplit : r.arcs.filter (fun a => a.dst ∉ seen') =
      (r.arcs.filter fun a => a.dst ∉ seen).filter fun a => a.dst ∉ seen' := by
    rw [List.filter_filter]
    refine List.filter_congr fun b _ => ?_
    rw [← Bool.decide_and, decide_eq_decide]
    exact ⟨fun h => ⟨h, fun hb => h (hsub _ hb)⟩, And.left⟩
  rw [hsplit, List.length_filter_lt_length_iff_exists]
  exact ⟨a, List.mem_filter.mpr ⟨ha, by simpa using hn⟩, by simpa using hn'⟩

/-- A round that finds something new uses up an arc. -/
theorem unseenArcs_round_lt {v : Visit}
    (h : firstVisits seen (r.departures frontier) = v :: vs) :
    r.unseenArcs (seen ++ (v :: vs).map Visit.node) < r.unseenArcs seen := by
  have hv : v ∈ firstVisits seen (r.departures frontier) := h ▸ List.mem_cons_self
  exact unseenArcs_lt (fun _ => List.mem_append_left _)
    (mem_departures.mp (firstVisits_subset hv)).2 (not_mem_of_mem_firstVisits hv) (by simp)

/-- **A walk of enough rounds is over:** further rounds find nothing. -/
theorem walkFrom_add {rounds : Nat} (hrounds : r.unseenArcs seen ≤ rounds) (more : Nat) :
    r.walkFrom seen frontier (rounds + more) = r.walkFrom seen frontier rounds := by
  induction rounds generalizing seen frontier with
  | zero =>
    match more with
    | 0 => rfl
    | more + 1 =>
      match hfresh : firstVisits seen (r.departures frontier) with
      | [] => simp only [walkFrom, hfresh, List.map_nil, walkFrom_nil, List.append_nil]
      | v :: vs => exact absurd (unseenArcs_round_lt hfresh) (by omega)
  | succ rounds ih =>
    rw [Nat.succ_add, walkFrom, walkFrom]
    match hfresh : firstVisits seen (r.departures frontier) with
    | [] => simp only [List.map_nil, walkFrom_nil]
    | v :: vs =>
      have hlt := unseenArcs_round_lt hfresh
      simp only [ih (Nat.le_of_lt_succ (Nat.lt_of_lt_of_le hlt hrounds))]

/-- **A walk of enough rounds leaves nothing out:** what was seen and what is
visited is closed under the arcs. -/
theorem leads_walkFrom {rounds : Nat}
    (hold : ∀ n ∈ seen, n ∉ frontier → ∀ m, r.Leads n m → m ∈ seen)
    (hrounds : r.unseenArcs seen ≤ rounds)
    (hn : n ∈ seen ++ (r.walkFrom seen frontier rounds).map Visit.node) (hl : r.Leads n m) :
    m ∈ seen ++ (r.walkFrom seen frontier rounds).map Visit.node := by
  induction rounds generalizing seen frontier with
  | zero =>
    obtain ⟨a, ha, -, rfl⟩ := hl
    have hno := List.countP_eq_zero.mp (Nat.le_zero.mp hrounds) a ha
    exact List.mem_append_left _ (by simpa using hno)
  | succ rounds ih =>
    rw [walkFrom] at hn ⊢
    generalize hfresh : firstVisits seen (r.departures frontier) = fresh at hn ⊢
    -- a round sees all that the nodes seen before it lead to
    have hstep : ∀ n ∈ seen, ∀ m, r.Leads n m → m ∈ seen ++ fresh.map Visit.node := by
      intro n hn m hl
      by_cases hf : n ∈ frontier
      · have hmem : (⟨m, n⟩ : Visit) ∈ r.departures frontier := mem_departures.mpr ⟨hf, hl⟩
        rcases (mem_or_exists_firstVisits hmem : m ∈ seen ∨ _) with h | ⟨w, hw, hwm⟩
        · exact List.mem_append_left _ h
        · rw [hfresh] at hw
          exact List.mem_append_right _ (List.mem_map.mpr ⟨w, hw, hwm⟩)
      · exact List.mem_append_left _ (hold n hn hf m hl)
    rw [List.map_append, ← List.append_assoc] at hn ⊢
    -- with nothing new the walk is over; else an arc has been used up
    match hcase : fresh with
    | [] =>
      simp only [List.map_nil, walkFrom_nil, List.append_nil] at hn hstep ⊢
      exact hstep n hn m hl
    | v :: vs =>
      refine ih (fun n hn hnew m hl => ?_) ?_ hn
      · rcases List.mem_append.mp hn with hn | hn
        · exact hstep n hn m hl
        · exact absurd hn hnew
      · have hlt := unseenArcs_round_lt hfresh
        omega

/-! ## The walk from roots -/

theorem explores_walk (r : Route) (roots : List NodeId) : r.Explores roots (r.walk roots) :=
  (explores_walkFrom (fun _ h => h) _).congr fun _ => List.mem_eraseDups

/-- **A walk meets exactly the nodes that the arcs lead to from a root.** -/
theorem met_iff :
    n ∈ roots ∨ (∃ v ∈ r.walk roots, v.node = n) ↔
      ∃ root ∈ roots, ReflTransGen r.Leads root n := by
  constructor
  · rintro (hn | ⟨v, hv, rfl⟩)
    · exact ⟨n, hn, .refl⟩
    · refine (explores_walk r roots).mem_of_closed
        (P := fun n => ∃ root ∈ roots, ReflTransGen r.Leads root n)
        (fun n hn => ⟨n, hn, .refl⟩) ?_ hv
      rintro m n ⟨root, hroot, h⟩ hl
      exact ⟨root, hroot, h.tail hl⟩
  · rintro ⟨root, hroot, h⟩
    have hmet : n ∈ roots.eraseDups ++ (r.walk roots).map Visit.node := by
      induction h with
      | refl => exact List.mem_append_left _ (List.mem_eraseDups.mpr hroot)
      | tail _ hl ih =>
        exact leads_walkFrom (fun n hn hno => absurd hn hno) List.countP_le_length ih hl
    rcases List.mem_append.mp hmet with h | h
    · exact .inl (List.mem_eraseDups.mp h)
    · exact .inr (List.mem_map.mp h)

/-- A walk visits the nodes that it reaches, other than the roots. -/
theorem exists_visit_iff :
    (∃ v ∈ r.walk roots, v.node = n) ↔ n ∉ roots ∧ ∃ root ∈ roots, ReflTransGen r.Leads root n := by
  constructor
  · rintro ⟨v, hv, rfl⟩
    exact ⟨(explores_walk r roots).not_mem hv, met_iff.mp (.inr ⟨v, hv, rfl⟩)⟩
  · rintro ⟨hno, hto⟩
    exact (met_iff.mpr hto).resolve_left hno

theorem reaches_iff :
    r.reaches roots n ↔ ∃ root ∈ roots, ReflTransGen r.Leads root n := by
  rw [← met_iff]
  simp [reaches, List.any_eq_true]

end HoldMargin.Route

namespace HoldMargin.Placement

open Relation

variable {p : Placement} {r : Routing} {net : NetId} {sink : PinId}

/-- **A sink is routed exactly if its node is a root or edges lead to it from
one.** -/
theorem isRouted_eq_ok_true :
    p.isRouted r net sink = .ok true ↔
      ∃ n route roots, p.pinNode sink = .ok n ∧ p.routeOfNet r net = .ok route ∧
        p.rootsOfNet net = .ok roots ∧ p.device.Supplies (r.of net) roots n := by
  have key : ∀ n route (roots : NodeSet), p.routeOfNet r net = .ok route →
      (route.reaches roots.toList n = true ↔ p.device.Supplies (r.of net) roots n) := by
    intro n route roots hroute
    rw [Route.reaches_iff, (draws_of_routeOfNet hroute).leads_eq]
    exact Iff.rfl
  constructor
  · intro h
    obtain ⟨n, hn, h⟩ := bind_eq_ok.mp h
    obtain ⟨route, hroute, h⟩ := bind_eq_ok.mp h
    obtain ⟨roots, hroots, h⟩ := bind_eq_ok.mp h
    rw [Except.ok.injEq] at h
    exact ⟨n, route, roots, hn, hroute, hroots, (key n route roots hroute).mp h⟩
  · rintro ⟨n, route, roots, hn, hroute, hroots, h⟩
    refine bind_eq_ok.mpr ⟨n, hn, bind_eq_ok.mpr ⟨route, hroute, bind_eq_ok.mpr
      ⟨roots, hroots, ?_⟩⟩⟩
    rw [(key n route roots hroute).mpr h]

/-- Where the node of a sink, the route and the roots are known, there is an answer. -/
theorem isRouted_of_known {n : NodeId} {route : Route} {roots : NodeSet}
    (hn : p.pinNode sink = .ok n) (hroute : p.routeOfNet r net = .ok route)
    (hroots : p.rootsOfNet net = .ok roots) :
    p.isRouted r net sink = .ok (route.reaches roots.toList n) :=
  bind_eq_ok.mpr ⟨n, hn, bind_eq_ok.mpr ⟨route, hroute, bind_eq_ok.mpr ⟨roots, hroots, rfl⟩⟩⟩

end HoldMargin.Placement
