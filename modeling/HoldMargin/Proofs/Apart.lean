import HoldMargin.Proofs.Sketched
import HoldMargin.Proofs.Supplied
/-!
# Nets that keep apart

The nets of a design keep apart if no node is used by two of them. The maze
router knows what each net uses (`Occupancy.mem_usersOf_ofRouting`), and a
path enters no node that another net uses, but for the one it leads to. Nor
does the router ask who uses the roots of the net that it starts from. So
what two nets share after a request is a root of the net or the node of a
sink, and nothing between them (`mazeRouter_shares_ends`); and these they may
come to share (`Placement.crossing_shares`).
-/

namespace HoldMargin

/-! ## What nets use -/

/-- **A netlist whose nets carry the identifiers of their positions.** -/
def Netlist.Positional (nl : Netlist) : Prop :=
  ∀ (i : Nat) (net : Net), nl.nets[i]? = some net → net.id.index = i

namespace Device

variable {d : Device} {es : EdgeSet} {is : List EdgeId} {i : EdgeId} {n : NodeId}

/-- Edges touch the nodes that they start and end at. -/
theorem touches_iff :
    d.Touches es n ↔ ∃ i ∈ es, ∃ e, d.edge? i = some e ∧ (n = e.src ∨ n = e.dst) := by
  constructor
  · rintro ⟨m, ⟨i, hi, e, he, rfl, -⟩ | ⟨i, hi, e, he, -, rfl⟩⟩
    · exact ⟨i, hi, e, he, .inl rfl⟩
    · exact ⟨i, hi, e, he, .inr rfl⟩
  · rintro ⟨i, hi, e, he, rfl | rfl⟩
    · exact .of_leads_left ⟨i, hi, e, he, rfl, rfl⟩
    · exact .of_leads_right ⟨i, hi, e, he, rfl, rfl⟩

theorem not_touches_nil : ¬ d.Touches (IdSet.ofList []) n := by simp [touches_iff]

theorem touches_cons {e : Edge} (he : d.edge? i = some e) :
    d.Touches (IdSet.ofList (i :: is)) n ↔
      (n = e.src ∨ n = e.dst) ∨ d.Touches (IdSet.ofList is) n := by
  simp [touches_iff, he]

/-- An edge that the device does not know touches nothing. -/
theorem touches_cons_of_eq_none (he : d.edge? i = none) :
    d.Touches (IdSet.ofList (i :: is)) n ↔ d.Touches (IdSet.ofList is) n := by
  simp [touches_iff, he]

end Device

/-! ## Who uses a node -/

namespace Occupancy

variable {o o' : Occupancy} {p : Placement} {r : Routing} {d : Device} {net other : NetId}
  {n node : NodeId}

theorem mem_usersOf_add :
    other ∈ (o.add node net).usersOf n ↔ other ∈ o.usersOf n ∨ other = net ∧ n = node := by
  rw [usersOf_add]
  split
  · rename_i h
    subst h
    rw [IdSet.mem_insert, or_comm, eq_self, and_true]
  · rename_i h
    simp [h]

theorem mem_usersOf_addEdge {e : Edge} :
    other ∈ (o.addEdge e net).usersOf n ↔
      other ∈ o.usersOf n ∨ other = net ∧ (n = e.src ∨ n = e.dst) := by
  rw [addEdge, mem_usersOf_add, mem_usersOf_add, or_assoc, and_or_left]

/-- **A path that is added** is used by its net from then on. -/
theorem mem_usersOf_addPath {path : List EdgeId} :
    other ∈ (o.addPath d net path).usersOf n ↔
      other ∈ o.usersOf n ∨ other = net ∧ d.Touches (IdSet.ofList path) n := by
  unfold addPath
  induction path generalizing o with
  | nil => simp [Device.not_touches_nil]
  | cons i path ih =>
    cases he : d.edge? i with
    | none => rw [List.filterMap_cons_none he, ih, Device.touches_cons_of_eq_none he]
    | some e =>
      rw [List.filterMap_cons_some he, List.foldl_cons, ih, mem_usersOf_addEdge,
        Device.touches_cons he, or_assoc, ← and_or_left]

/-- A route all edges of which are known is added like a path. -/
theorem eq_addPath_of_addRoute {k : Net} {edges : List EdgeId}
    (h : o.addRoute p k edges = .ok o') : o' = o.addPath p.device k.id edges := by
  unfold addRoute at h
  induction edges generalizing o with
  | nil =>
    cases h
    rfl
  | cons i edges ih =>
    rw [List.foldlM_cons] at h
    obtain ⟨next, hnext, h⟩ := bind_eq_ok.mp h
    split at hnext
    · rename_i e he
      cases hnext
      rw [ih h, addPath, addPath, List.filterMap_cons_some he, List.foldl_cons]
    · cases hnext

/-- **The occupancy by all routes**: a net uses what its committed edges
touch. -/
theorem mem_usersOf_ofRouting (h : ofRouting p r = .ok o) :
    other ∈ o.usersOf n ↔
      ∃ (i : Nat) (k : Net), p.netlist.nets[i]? = some k ∧ k.id = other ∧
        p.device.Touches (r.entry i) n := by
  have hall : ∀ (ks : List (Net × Nat)) (o o' : Occupancy),
      ks.foldlM (fun o k => o.addRoute p k.1 (r.entry k.2).toList) o = .ok o' →
      (other ∈ o'.usersOf n ↔ other ∈ o.usersOf n ∨
        ∃ k ∈ ks, other = k.1.id ∧ p.device.Touches (r.entry k.2) n) := by
    intro ks
    induction ks with
    | nil =>
      intro o o' h
      cases h
      simp
    | cons k ks ih =>
      intro o o' h
      rw [List.foldlM_cons] at h
      obtain ⟨next, hnext, h⟩ := bind_eq_ok.mp h
      rw [ih next o' h, eq_addPath_of_addRoute hnext, mem_usersOf_addPath, IdSet.ofList_toList,
        List.exists_mem_cons_iff, or_assoc]
  have hnone : ¬ other ∈ usersOf {} n := by simp [usersOf]
  rw [hall _ _ _ h, or_iff_right hnone]
  constructor
  · rintro ⟨⟨k, i⟩, hmem, rfl, ht⟩
    exact ⟨i, k, by simpa using List.mem_zipIdx_iff_getElem?.mp hmem, rfl, ht⟩
  · rintro ⟨i, k, hk, rfl, ht⟩
    exact ⟨(k, i), List.mem_zipIdx_iff_getElem?.mpr (by simpa using hk), rfl, ht⟩

end Occupancy

/-! ## Nets apart -/

namespace Placement

variable {p : Placement} {limit : Nat} {o : Occupancy} {r r' : Routing} {net other : NetId}
  {avoid : NodeSet} {sink : PinId} {sinks : List PinId} {path : List EdgeId} {n : NodeId}

/-- **A net of the design uses a node** if one of its committed edges starts or
ends there. -/
def Uses (p : Placement) (r : Routing) (net : NetId) (n : NodeId) : Prop :=
  (∃ k, p.netlist.net? net = some k) ∧ p.device.Touches (r.of net) n

/-- **The nets keep apart**: no node is used by two of them. -/
def Apart (p : Placement) (r : Routing) : Prop :=
  ∀ a b n, p.Uses r a n → p.Uses r b n → a = b

theorem uses_congr (h : r'.of net = r.of net) : p.Uses r' net n ↔ p.Uses r net n := by
  unfold Uses
  rw [h]

theorem uses_set_iff {es : EdgeSet} (h : other ≠ net) :
    p.Uses (r.set net es) other n ↔ p.Uses r other n :=
  uses_congr (by rw [Routing.of_set, if_neg h])

/-- **An occupancy that covers a routing** knows what the nets other than `net`
use. -/
def Covers (p : Placement) (o : Occupancy) (r : Routing) (net : NetId) : Prop :=
  ∀ other n, other ≠ net → p.Uses r other n → other ∈ o.usersOf n

theorem covers_ofRouting (hpos : p.netlist.Positional) (h : Occupancy.ofRouting p r = .ok o) :
    p.Covers o r net := by
  rintro other n - ⟨⟨k, hk⟩, ht⟩
  refine (Occupancy.mem_usersOf_ofRouting h).mpr ⟨other.index, k, hk, ?_, ht⟩
  exact TableId.ext_index (hpos _ _ hk)

/-- What is not closed to the net is used by no other. -/
theorem Covers.not_uses_of_open (h : p.Covers o r net) (hopen : o.isClosedTo n net = false) :
    ∀ other, other ≠ net → ¬ p.Uses r other n := by
  intro other hne huses
  rw [Occupancy.isClosedTo_iff.mpr ⟨other, h other n hne huses, hne⟩] at hopen
  cases hopen

/-- What a net commits does not concern the others. -/
theorem Covers.commit (h : p.Covers o r net) :
    p.Covers (o.addPath p.device net path) (r.set net ((r.of net).union path)) net := by
  intro other n hne huses
  rw [uses_set_iff hne] at huses
  exact Occupancy.mem_usersOf_addPath.mpr (.inl (h other n hne huses))

/-- **Where the route of a net may end**: at a root of the net or at the node of
one of the sinks. -/
def IsEnd (p : Placement) (net : NetId) (sinks : List PinId) (n : NodeId) : Prop :=
  (∃ roots, p.rootsOfNet net = .ok roots ∧ n ∈ roots) ∨ ∃ sink ∈ sinks, p.pinNode sink = .ok n

theorem IsEnd.mono {sinks' : List PinId} (h : p.IsEnd net sinks n) (hsub : sinks ⊆ sinks') :
    p.IsEnd net sinks' n := by
  rcases h with hroot | ⟨sink, hsink, hnode⟩
  · exact .inl hroot
  · exact .inr ⟨sink, hsub hsink, hnode⟩

/-- **What is committed for a sink** stays clear of the nodes that other nets use,
but for the roots of the net and the node of the sink. -/
theorem clear_of_pathToSink (hd : p.device.Ready) (hcovers : p.Covers o r net)
    (h : p.pathToSink limit o r net avoid sink = .ok path)
    (ht : p.device.Touches ((r.of net).union path) n) :
    p.device.Touches (r.of net) n ∨ p.IsEnd net [sink] n ∨
      ∀ other, other ≠ net → ¬ p.Uses r other n := by
  rcases pathToSink_cases h with ⟨rfl, -⟩ | ⟨target, query, htarget, hq, h⟩
  · exact .inl ht
  obtain ⟨-, roots, hroots, rfl, hsources⟩ := pathQuery_eq_ok hq
  obtain ⟨source, hsource, hpath, -⟩ := PathQuery.search_eq_ok hd h
  rcases hpath.touches_union ht with ht | hn
  · exact .inl ht
  rcases List.mem_cons.mp hn with rfl | hn
  · -- the path starts at a root or where the net has been already
    rcases (hsources n).mp hsource with hroot | ⟨ht, -⟩
    · exact .inr (.inl (.inl ⟨roots, hroots, hroot⟩))
    · exact .inl ht
  · rcases (entered_of_search hd hq h hn).2.2 with rfl | ⟨-, hopen⟩
    · exact .inr (.inl (.inr ⟨sink, List.mem_cons_self, htarget⟩))
    · exact .inr (.inr (hcovers.not_uses_of_open hopen))

/-- **Sink by sink the net stays clear of the others**, whether all sinks are
routed in the end or not. -/
theorem clear_of_routeSinks (hd : p.device.Ready) (hcovers : p.Covers o r net)
    (ht : p.device.Touches ((p.routeSinks limit net avoid sinks o r).1.of net) n) :
    p.device.Touches (r.of net) n ∨ p.IsEnd net sinks n ∨
      ∀ other, other ≠ net → ¬ p.Uses r other n := by
  induction sinks generalizing o r with
  | nil => exact .inl ht
  | cons sink sinks ih =>
    rw [routeSinks] at ht
    split at ht
    · exact .inl ht
    · rename_i path hpath
      have hlater := ih hcovers.commit ht
      rw [Routing.of_set_self] at hlater
      rcases hlater with ht | hend | hclear
      · rcases clear_of_pathToSink hd hcovers hpath ht with ht | hend | hclear
        · exact .inl ht
        · exact .inr (.inl (hend.mono (by simp)))
        · exact .inr (.inr hclear)
      · exact .inr (.inl (hend.mono (List.subset_cons_self _ _)))
      · exact .inr (.inr fun other hne huses => hclear other hne ((uses_set_iff hne).mpr huses))

end Placement

/-- **What nets share after a request to the maze router.** Where nets have kept
apart, two of them use a node afterwards only if one of them is the net that
was routed and the node is one of its roots or that of a sink it was routed
to; this holds whether the router succeeds or not. So the nets keep apart if
no other net uses these nodes. -/
theorem mazeRouter_shares_ends {p : Placement} {r : Routing} (limit : Nat) (request : RouteRequest)
    (hd : p.device.Ready) (hpos : p.netlist.Positional) (hapart : p.Apart r) :
    let after := ((mazeRouter limit).route p () r request).routing
    (∀ a b n, a ≠ b → p.Uses after a n → p.Uses after b n →
      (a = request.net ∨ b = request.net) ∧ p.IsEnd request.net request.sinks n) ∧
    ((∀ other n, other ≠ request.net → p.Uses r other n →
      ¬ p.IsEnd request.net request.sinks n) → p.Apart after) := by
  intro after
  have hother : ∀ other n, other ≠ request.net → (p.Uses after other n ↔ p.Uses r other n) :=
    fun other n hne => Placement.uses_congr (mazeRouter_confined limit p () r request other hne)
  have hclear : ∀ n, p.Uses after request.net n → p.Uses r request.net n ∨
      p.IsEnd request.net request.sinks n ∨ ∀ other, other ≠ request.net → ¬ p.Uses r other n := by
    rintro n ⟨hnet, ht⟩
    simp only [after, mazeRouter] at ht
    split at ht
    · exact .inl ⟨hnet, ht⟩
    · rename_i o ho
      exact (Placement.clear_of_routeSinks hd (Placement.covers_ofRouting hpos ho) ht).imp
        (fun ht => ⟨hnet, ht⟩) id
  -- a node that the net shares with another one is an end of the net
  have hend : ∀ other n, other ≠ request.net → p.Uses after request.net n → p.Uses after other n →
      p.IsEnd request.net request.sinks n := by
    intro other n hne huses huses'
    rw [hother other n hne] at huses'
    rcases hclear n huses with huses | hend | hclear
    · exact absurd (hapart _ _ n huses' huses) hne
    · exact hend
    · exact absurd huses' (hclear other hne)
  have hshared : ∀ a b n, a ≠ b → p.Uses after a n → p.Uses after b n →
      (a = request.net ∨ b = request.net) ∧ p.IsEnd request.net request.sinks n := by
    intro a b n hne ha hb
    by_cases hanet : a = request.net
    · subst hanet
      exact ⟨.inl rfl, hend b n hne.symm ha hb⟩
    by_cases hbnet : b = request.net
    · subst hbnet
      exact ⟨.inr rfl, hend a n hne hb ha⟩
    · rw [hother a n hanet] at ha
      rw [hother b n hbnet] at hb
      exact absurd (hapart a b n ha hb) hne
  refine ⟨hshared, fun hfree a b n ha hb => Classical.byContradiction fun hne => ?_⟩
  obtain ⟨rfl | rfl, hend⟩ := hshared a b n hne ha hb
  · exact hfree b n (Ne.symm hne) ((hother b n (Ne.symm hne)).mp hb) hend
  · exact hfree a n hne ((hother a n hne).mp ha) hend

namespace Placement

/-! ### Nets that cross

The first net goes through the output of the second driver and the pin node of
the second net's sink, on its way to a sink of its own. -/

/-- In a sketched routing only the first net uses anything. -/
theorem eq_of_uses_sketch {p : Placement} {edges : List Nat} {other : NetId} {n : NodeId}
    (h : p.Uses (.sketch edges) other n) : other = .ofIndex 0 := by
  by_contra hne
  have hempty : (Routing.sketch edges).of other = IdSet.ofList [] := by
    rw [Routing.sketch, Routing.of_set, if_neg hne]
    rfl
  exact Device.not_touches_nil (hempty ▸ h.2)

theorem apart_sketch (p : Placement) (edges : List Nat) : p.Apart (.sketch edges) :=
  fun _ _ _ ha hb => (eq_of_uses_sketch ha).trans (eq_of_uses_sketch hb).symm

/-- Two nets: from Q to X, through the output at P and the pin node of A, and
from P to A. -/
def crossing : Placement where
  device := .sketch
    [⟨.sitePin, none⟩, ⟨.output, none⟩, ⟨.single, none⟩, ⟨.sitePin, none⟩, ⟨.sitePin, none⟩,
      ⟨.output, none⟩, ⟨.single, none⟩, ⟨.sitePin, none⟩]
    [(0, 1), (1, 5), (5, 2), (2, 3), (3, 7), (4, 5), (5, 6), (6, 3)] [("A", 3), ("P", 4), ("X", 7)]
  netlist := {
    name := "crossing"
    pins := #[
      { id := .ofIndex 0, site := .ofIndex 0, name := "Q", role := .general },
      { id := .ofIndex 1, site := .ofIndex 1, name := "A", role := .general },
      { id := .ofIndex 2, site := .ofIndex 1, name := "P", role := .general },
      { id := .ofIndex 3, site := .ofIndex 1, name := "X", role := .general }]
    nets := #[
      { id := .ofIndex 0, name := "n", kind := .wire, source := some (.ofIndex 0)
        alternateSource := none, sinks := [.ofIndex 3] },
      { id := .ofIndex 1, name := "m", kind := .wire, source := some (.ofIndex 2)
        alternateSource := none, sinks := [.ofIndex 1] }] }

/-- The second net is to be routed to its sink. -/
def crossingRequest : RouteRequest where
  net := .ofIndex 1
  sinks := [.ofIndex 1]
  avoid := {}

theorem ready_crossing : crossing.device.Ready := Device.ready_reindex (by decide +kernel)

theorem positional_crossing : crossing.netlist.Positional := by
  intro i net h
  match i with
  | 0 | 1 =>
    cases h
    rfl
  | _ + 2 => cases h

/-- The answer for the second net where the first one has committed some edges. -/
def crossingReply (edges : List Nat) : RouteReply Unit :=
  (mazeRouter 1000).route crossing () (.sketch edges) crossingRequest

/-- The second net gets its sink, at a node that the first one uses. -/
theorem uses_crossing :
    (crossingReply [0, 1, 2, 3, 4]).outcome = .ok () ∧
      crossing.Uses (crossingReply [0, 1, 2, 3, 4]).routing (.ofIndex 0) (.ofIndex 3) ∧
      crossing.Uses (crossingReply [0, 1, 2, 3, 4]).routing (.ofIndex 1) (.ofIndex 3) := by
  obtain ⟨hok, hfirst, hsecond⟩ : (crossingReply [0, 1, 2, 3, 4]).outcome = .ok () ∧
      (crossingReply [0, 1, 2, 3, 4]).routing.of (.ofIndex 0) =
        IdSet.ofList ([0, 1, 2, 3, 4].map .ofIndex) ∧
      (crossingReply [0, 1, 2, 3, 4]).routing.of (.ofIndex 1) =
        IdSet.ofList ([6, 7].map .ofIndex) := by decide +kernel
  refine ⟨hok, ⟨⟨_, rfl⟩, ?_⟩, ⟨_, rfl⟩, ?_⟩
  · rw [hfirst]
    exact Device.touches_iff.mpr ⟨.ofIndex 3, by decide, _, rfl, .inr rfl⟩
  · rw [hsecond]
    exact Device.touches_iff.mpr ⟨.ofIndex 7, by decide, _, rfl, .inr rfl⟩

/-- No end of the second net is where the first edge starts or ends. -/
theorem not_isEnd_of_uses_sketch {n : NodeId} (h : crossing.Uses (.sketch [0]) (.ofIndex 0) n) :
    ¬ crossing.IsEnd (.ofIndex 1) [.ofIndex 1] n := by
  have hn : n = .ofIndex 0 ∨ n = .ofIndex 1 := by
    have ht : crossing.device.Touches (IdSet.ofList [.ofIndex 0]) n := h.2
    rw [Device.touches_cons (e := ⟨.ofIndex 0, .ofIndex 0, .ofIndex 1⟩) (by decide +kernel)] at ht
    exact ht.resolve_right Device.not_touches_nil
  have hroots : crossing.rootsOfNet (.ofIndex 1) =
      .ok (IdSet.ofList [.ofIndex 4, .ofIndex 5]) := by
    decide +kernel
  have hnode : crossing.pinNode (.ofIndex 1) = .ok (.ofIndex 3) := by decide +kernel
  rintro (⟨roots, hroots', hmem⟩ | ⟨sink, hsink, hnode'⟩)
  · obtain rfl := Except.ok.inj (hroots.symm.trans hroots')
    rcases hn with rfl | rfl
    · exact absurd hmem (by decide)
    · exact absurd hmem (by decide)
  · rw [List.mem_singleton.mp hsink, hnode, Except.ok.injEq] at hnode'
    rcases hn with rfl | rfl
    · cases hnode'
    · cases hnode'

/-- The node that the nets share is an end of the second one. Had the first net
committed its first edge only, they would keep apart. -/
theorem crossing_ends :
    (crossing.Uses (crossingReply [0, 1, 2, 3, 4]).routing (.ofIndex 0) (.ofIndex 3) ∧
      crossing.Uses (crossingReply [0, 1, 2, 3, 4]).routing (.ofIndex 1) (.ofIndex 3) ∧
      crossing.IsEnd (.ofIndex 1) [.ofIndex 1] (.ofIndex 3)) ∧
    (crossingReply [0]).outcome = .ok () ∧ crossing.Apart (crossingReply [0]).routing := by
  obtain ⟨-, hfirst, hsecond⟩ := uses_crossing
  refine ⟨⟨hfirst, hsecond, ?_⟩, by decide +kernel, ?_⟩
  · exact ((mazeRouter_shares_ends 1000 crossingRequest ready_crossing positional_crossing
      (apart_sketch _ [0, 1, 2, 3, 4])).1 _ _ _ (by decide) hfirst hsecond).2
  · refine (mazeRouter_shares_ends 1000 crossingRequest ready_crossing positional_crossing
      (apart_sketch _ [0])).2 fun other n _ huses => ?_
    obtain rfl := eq_of_uses_sketch huses
    exact not_isEnd_of_uses_sketch huses

/-- **Nets may come to share the ends of a route**: a sink is routed to whoever
uses its node. -/
theorem crossing_shares :
    crossing.device.Ready ∧ crossing.netlist.Positional ∧
      crossing.Apart (.sketch [0, 1, 2, 3, 4]) ∧
      let reply := (mazeRouter 1000).route crossing () (.sketch [0, 1, 2, 3, 4]) crossingRequest
      ¬ crossing.Apart reply.routing := by
  refine ⟨ready_crossing, positional_crossing, apart_sketch _ _, fun hapart => ?_⟩
  obtain ⟨-, hfirst, hsecond⟩ := uses_crossing
  exact absurd (hapart _ _ _ hfirst hsecond) (by decide)

end Placement

end HoldMargin
