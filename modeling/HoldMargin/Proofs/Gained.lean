import HoldMargin.Proofs.Apart
import HoldMargin.Proofs.Resolved
/-!
# What a net gains by a request

The maze router works off the sinks of a request one after the other and may fail at any
of them. What holds of the routing that it leaves is therefore said of every prefix of
the list: `Placement.Gains` relates a routing to one in which a net has more edges, each
of which enters a node as it may. The relation composes (`Gains.trans`), a path that is
committed for one sink has it (`Gains.commit`), and so it holds however far the router
comes. A sink that it fails at is not routed in what it leaves. If all sinks are routed,
there is nothing left to do, and the same request once more comes to the same reply.
-/

namespace HoldMargin

namespace Routing

/-- A net's edges are what they were set to last. -/
theorem set_set (r : Routing) (net : NetId) (es es' : EdgeSet) :
    (r.set net es).set net es' = r.set net es' := by
  have hfits : net.index + 1 -
      (r.sets ++ Array.replicate (net.index + 1 - r.sets.size) (∅ : EdgeSet)).size = 0 := by
    rw [Array.size_append, Array.size_replicate]
    omega
  simp only [set, Array.size_setIfInBounds, hfits, Array.replicate_zero, Array.append_empty,
    Array.setIfInBounds_setIfInBounds]

/-- **A routing that has a place for a net**: to set the edges of the net to what they are
changes nothing. -/
def Holds (r : Routing) (net : NetId) : Prop := r.set net (r.of net) = r

theorem holds_set (r : Routing) (net : NetId) (es : EdgeSet) : (r.set net es).Holds net := by
  rw [Holds, of_set_self, set_set]

end Routing

/-! ## Where the occupancy is known -/

namespace Occupancy

variable {o : Occupancy} {p : Placement} {r r' : Routing}

/-- **The nodes that nets use are known** exactly if all their edges are. -/
theorem exists_ofRouting_iff :
    (∃ o, ofRouting p r = .ok o) ↔ ∀ (k : Nat) (net : Net), p.netlist.nets[k]? = some net →
      p.device.Knows (r.entry k) := by
  have hroute : ∀ (o : Occupancy) (net : Net) (es : EdgeSet),
      (∃ o', o.addRoute p net es.toList = .ok o') ↔ p.device.Knows es := by
    intro o net es
    refine exists_foldlM_iff fun i _ o => ?_
    cases p.device.edge? i <;> simp
  refine Iff.trans (exists_foldlM_iff fun x _ o => hroute o x.1 (r.entry x.2))
    ⟨fun h k net hnet => ?_, fun h x hx => ?_⟩
  · exact h (net, k) (List.mem_zipIdx_iff_getElem?.mpr (by simpa using hnet))
  · exact h x.2 x.1 (by simpa using List.mem_zipIdx_iff_getElem?.mp hx)

/-- They stay known if only known edges are added. -/
theorem exists_ofRouting_of_knowsNew (h : ofRouting p r = .ok o) (hnew : p.device.KnowsNew r r') :
    ∃ o', ofRouting p r' = .ok o' := by
  have hknown := exists_ofRouting_iff.mp ⟨o, h⟩
  refine exists_ofRouting_iff.mpr fun k net hnet i hi => ?_
  rcases hnew k i hi with hi | hi
  · exact hknown k net hnet i hi
  · exact hi

end Occupancy

/-- **No path to a sink was found**: there is none, or the search for it was given up. -/
def RouterError.FailsAt (e : RouterError) (sink : PinId) : Prop :=
  e = .noPath sink ∨ ∃ spent, e = .budgetExhausted sink spent

theorem RouterError.FailsAt.ne_model {e : RouterError} {sink : PinId} (h : e.FailsAt sink)
    (m : PassError) : e ≠ .model m := by
  rintro rfl
  rcases h with hno | ⟨_, hno⟩ <;> cases hno

namespace Placement

variable {p : Placement} {limit : Nat} {o : Occupancy} {r r' r'' : Routing} {net : NetId}
  {avoid : NodeSet} {sink : PinId} {sinks sinks' : List PinId} {path : List EdgeId} {n : NodeId}
  {e : RouterError}

/-! ## How edges are gained -/

/-- The node of one of some sinks. -/
def AtSink (p : Placement) (sinks : List PinId) (n : NodeId) : Prop :=
  ∃ sink ∈ sinks, p.pinNode sink = .ok n

theorem AtSink.mono (h : p.AtSink sinks n) (hsub : sinks ⊆ sinks') : p.AtSink sinks' n := by
  obtain ⟨sink, hsink, hnode⟩ := h
  exact ⟨sink, hsub hsink, hnode⟩

/-- **What may become of a routing** where sinks of a net are routed without entering
certain nodes: the routes of other nets stay, and the net has all its edges and perhaps
others. Such an edge does not come back to the route, but to the node of a sink on it
that was to be avoided; and it enters no node that is to be avoided and none that another
net uses, but for the nodes of the sinks. -/
structure Gains (p : Placement) (net : NetId) (avoid : NodeSet) (sinks : List PinId)
    (r r' : Routing) : Prop where
  others : ∀ other, other ≠ net → r'.of other = r.of other
  kept : ∀ i ∈ r.of net, i ∈ r'.of net
  gained : ∀ i ∈ r'.of net, i ∉ r.of net → ∃ e, p.device.edge? i = some e ∧
    (p.device.Touches (r.of net) e.dst → e.dst ∈ avoid ∧ p.AtSink sinks e.dst) ∧
    (e.dst ∈ avoid ∨ (∃ other, other ≠ net ∧ p.Uses r other e.dst) → p.AtSink sinks e.dst)

namespace Gains

theorem refl (p : Placement) (net : NetId) (avoid : NodeSet) (sinks : List PinId) (r : Routing) :
    p.Gains net avoid sinks r r :=
  ⟨fun _ _ => rfl, fun _ => id, fun _ hi hno => absurd hi hno⟩

theorem mono (h : p.Gains net avoid sinks r r') (hsub : sinks ⊆ sinks') :
    p.Gains net avoid sinks' r r' := by
  refine ⟨h.others, h.kept, fun i hi hno => ?_⟩
  obtain ⟨e, he, hback, hforeign⟩ := h.gained i hi hno
  exact ⟨e, he, fun ht => ⟨(hback ht).1, (hback ht).2.mono hsub⟩,
    fun hn => (hforeign hn).mono hsub⟩

/-- **What is gained later is gained from the start:** the route has only grown since, and
the other nets use what they used. -/
theorem trans (h : p.Gains net avoid sinks r r') (h' : p.Gains net avoid sinks r' r'') :
    p.Gains net avoid sinks r r'' := by
  refine ⟨fun other hne => (h'.others other hne).trans (h.others other hne),
    fun i hi => h'.kept i (h.kept i hi), fun i hi hno => ?_⟩
  by_cases hmid : i ∈ r'.of net
  · exact h.gained i hmid hno
  · obtain ⟨e, he, hback, hforeign⟩ := h'.gained i hi hmid
    refine ⟨e, he, fun ht => hback (ht.mono h.kept), fun hn => hforeign (hn.imp id ?_)⟩
    rintro ⟨other, hne, huses⟩
    exact ⟨other, hne, (uses_congr (h.others other hne)).mpr huses⟩

/-- **A path that is committed for a sink** is gained. -/
theorem commit (hd : p.device.Ready) (hcovers : p.Covers o r net)
    (h : p.pathToSink limit o r net avoid sink = .ok path) :
    p.Gains net avoid [sink] r (r.set net ((r.of net).union path)) := by
  refine ⟨fun other hne => by rw [Routing.of_set, if_neg hne], fun i hi => ?_, fun i hi hno => ?_⟩
  · rw [Routing.of_set_self]
    exact IdSet.mem_union.mpr (.inl hi)
  rw [Routing.of_set_self] at hi
  have hi := (IdSet.mem_union.mp hi).resolve_left hno
  rcases pathToSink_cases h with ⟨rfl, -⟩ | ⟨target, query, htarget, hq, h⟩
  · exact absurd hi List.not_mem_nil
  obtain ⟨source, -, hpath, -⟩ := PathQuery.search_eq_ok hd h
  obtain ⟨e, he⟩ := hpath.knows i hi
  obtain ⟨-, hback, hend⟩ :=
    entered_of_search hd hq h (Device.mem_entered.mpr ⟨i, hi, e, he, rfl⟩)
  -- only the node of the sink is entered where it is closed
  have hforeign : e.dst ∈ avoid ∨ (∃ other, other ≠ net ∧ p.Uses r other e.dst) →
      p.AtSink [sink] e.dst := by
    intro hn
    rcases hend with htarget' | ⟨hfree, hopen⟩
    · exact ⟨sink, List.mem_cons_self, htarget' ▸ htarget⟩
    · rcases hn with hn | ⟨other, hne, huses⟩
      · exact absurd hn hfree
      · exact absurd huses (hcovers.not_uses_of_open hopen other hne)
  exact ⟨e, he, fun ht => ⟨hback ht, hforeign (.inl (hback ht))⟩, hforeign⟩

end Gains

/-- **Sink by sink edges are gained**, however far it goes. -/
theorem gains_routeSinks (hd : p.device.Ready) (hcovers : p.Covers o r net) :
    p.Gains net avoid sinks r (p.routeSinks limit net avoid sinks o r).1 := by
  induction sinks generalizing o r with
  | nil => exact .refl ..
  | cons sink sinks ih =>
    rw [routeSinks]
    split
    · exact .refl ..
    · rename_i path hpath
      exact ((Gains.commit hd hcovers hpath).mono (by simp)).trans
        ((ih hcovers.commit).mono (List.subset_cons_self _ _))

/-! ## Where the router fails -/

/-- A search is made for a sink that is not routed. -/
theorem pathToSink_eq_error {failed : PinId}
    (h : p.pathToSink limit o r net avoid sink = .error e) (hfailed : e.FailsAt failed) :
    failed = sink ∧ p.isRouted r net sink = .ok false := by
  rcases bind_eq_error.mp h with h | ⟨routed, hrouted, h⟩
  · obtain ⟨m, -, rfl⟩ := mapError_eq_error.mp h
    exact absurd rfl (hfailed.ne_model m)
  cases routed with
  | true => cases h
  | false =>
    refine ⟨?_, mapError_eq_ok hrouted⟩
    rcases bind_eq_error.mp h with h | ⟨target, -, h⟩
    · obtain ⟨m, -, rfl⟩ := mapError_eq_error.mp h
      exact absurd rfl (hfailed.ne_model m)
    rcases bind_eq_error.mp h with h | ⟨query, -, h⟩
    · obtain ⟨m, -, rfl⟩ := mapError_eq_error.mp h
      exact absurd rfl (hfailed.ne_model m)
    -- what is left is the failure of the search
    obtain ⟨failure, -, rfl⟩ := mapError_eq_error.mp h
    cases failure with
    | noPath =>
      rcases hfailed with hno | ⟨_, hno⟩
      · cases hno
        rfl
      · cases hno
    | budgetSpent =>
      rcases hfailed with hno | ⟨_, hno⟩
      · cases hno
      · cases hno
        rfl

/-- **The sink that the router fails at is not routed** in what it leaves, whatever was
committed for the sinks before it. -/
theorem isRouted_of_routeSinks_eq_error {failed : PinId}
    (h : (p.routeSinks limit net avoid sinks o r).2 = .error e)
    (hfailed : e.FailsAt failed) :
    failed ∈ sinks ∧
      p.isRouted (p.routeSinks limit net avoid sinks o r).1 net failed = .ok false := by
  induction sinks generalizing o r with
  | nil => cases h
  | cons sink sinks ih =>
    rw [routeSinks] at h ⊢
    split at h
    · rename_i hpath
      cases h
      obtain ⟨rfl, hno⟩ := pathToSink_eq_error hpath hfailed
      exact ⟨List.mem_cons_self, hno⟩
    · obtain ⟨hmem, hno⟩ := ih h
      exact ⟨List.mem_cons_of_mem _ hmem, hno⟩

/-! ## The same request once more -/

theorem holds_routeSinks (h : r.Holds net) :
    (p.routeSinks limit net avoid sinks o r).1.Holds net := by
  induction sinks generalizing o r with
  | nil => exact h
  | cons sink sinks ih =>
    rw [routeSinks]
    split
    · exact h
    · exact ih (Routing.holds_set ..)

/-- For sinks that are routed nothing is done. -/
theorem routeSinks_of_routed (h : r.Holds net)
    (hrouted : ∀ sink ∈ sinks, p.isRouted r net sink = .ok true) :
    p.routeSinks limit net avoid sinks o r = (r, .ok ()) := by
  induction sinks generalizing o with
  | nil => rfl
  | cons sink sinks ih =>
    obtain ⟨hsink, hsinks⟩ := List.forall_mem_cons.mp hrouted
    have hpath : p.pathToSink limit o r net avoid sink = .ok [] := by
      rw [pathToSink, hsink]
      rfl
    have hsame : r.set net ((r.of net).union []) = r := h
    simp only [routeSinks, hpath, hsame]
    exact ih hsinks

/-- **Sinks that are all routed in the end** need not be asked for again. -/
theorem routeSinks_twice (hok : (p.routeSinks limit net avoid sinks o r).2 = .ok ())
    (hrouted : ∀ sink ∈ sinks,
      p.isRouted (p.routeSinks limit net avoid sinks o r).1 net sink = .ok true)
    (o' : Occupancy) :
    p.routeSinks limit net avoid sinks o' (p.routeSinks limit net avoid sinks o r).1 =
      p.routeSinks limit net avoid sinks o r := by
  cases sinks with
  | nil => rfl
  | cons sink sinks =>
    have hholds : (p.routeSinks limit net avoid (sink :: sinks) o r).1.Holds net := by
      rw [routeSinks] at hok ⊢
      split at hok
      · cases hok
      · exact holds_routeSinks (Routing.holds_set ..)
    rw [routeSinks_of_routed hholds hrouted, ← hok]

end Placement

/-- Where the occupancy is known, the sinks are worked off. -/
theorem mazeRouter_eq {p : Placement} {limit : Nat} {r : Routing} {request : RouteRequest}
    {o : Occupancy} (ho : Occupancy.ofRouting p r = .ok o) :
    let run := p.routeSinks limit request.net request.avoid request.sinks o r
    (mazeRouter limit).route p () r request =
      { state := (), routing := run.1, outcome := run.2 } := by
  simp only [mazeRouter, ho]

/-- **What a request to the maze router does**, whatever it answers. The routing changes by
edges that the net gains, each of which enters a node as it may. If a search fails, it was
for one of the sinks, and the sink is not routed. If the router succeeds and all sinks are
routed, the same request once more comes to the same reply. -/
theorem mazeRouter_gains {p : Placement} (limit : Nat) (r : Routing) (request : RouteRequest)
    (hd : p.device.Ready) (hpos : p.netlist.Positional) :
    let reply := (mazeRouter limit).route p () r request
    p.Gains request.net request.avoid request.sinks r reply.routing ∧
    (∀ sink e, reply.outcome = .error e → e.FailsAt sink →
      sink ∈ request.sinks ∧ p.isRouted reply.routing request.net sink = .ok false) ∧
    (reply.outcome = .ok () →
      (∀ sink ∈ request.sinks, p.isRouted reply.routing request.net sink = .ok true) →
      (mazeRouter limit).route p () reply.routing request = reply) := by
  intro reply
  cases ho : Occupancy.ofRouting p r with
  | error m =>
    have hreply : reply = { state := (), routing := r, outcome := .error (.model m) } := by
      simp only [reply, mazeRouter, ho]
    rw [hreply]
    refine ⟨.refl .., fun sink e he hfailed => ?_, fun hok => ?_⟩
    · cases he
      exact absurd rfl (hfailed.ne_model m)
    · cases hok
  | ok o =>
    rw [show reply = _ from mazeRouter_eq ho]
    refine ⟨Placement.gains_routeSinks hd (Placement.covers_ofRouting hpos ho),
      fun sink e he hfailed => Placement.isRouted_of_routeSinks_eq_error he hfailed,
      fun hok hrouted => ?_⟩
    obtain ⟨o', ho'⟩ := Occupancy.exists_ofRouting_of_knowsNew ho
      (Placement.knowsNew_routeSinks hd request.sinks o r)
    rw [mazeRouter_eq ho', Placement.routeSinks_twice hok hrouted o']

/-! ## Two requests

Without the node before it the second sink cannot be routed. The first one is, and it
stays so when both are asked for again and nothing is to be avoided. -/

namespace Placement

/-- Both sinks are to be routed. -/
def twoSinksRequest (avoid : List Nat) : RouteRequest where
  net := .ofIndex 0
  sinks := [.ofIndex 1, .ofIndex 2]
  avoid := IdSet.ofList (avoid.map .ofIndex)

/-- The answer if the node before the second sink is to be avoided. -/
def firstSinkReply : RouteReply Unit :=
  (mazeRouter 1000).route twoSinks () {} (twoSinksRequest [5])

/-- The answer to the second request. -/
def bothSinksReply : RouteReply Unit :=
  (mazeRouter 1000).route twoSinks () firstSinkReply.routing (twoSinksRequest [])

theorem positional_twoSinks : twoSinks.netlist.Positional := by
  intro i net h
  match i with
  | 0 =>
    cases h
    rfl
  | _ + 1 => cases h

theorem twoSinks_gains :
    firstSinkReply.outcome = .error (.noPath (.ofIndex 2)) ∧
    twoSinks.isRouted firstSinkReply.routing (.ofIndex 0) (.ofIndex 1) = .ok true ∧
    twoSinks.isRouted firstSinkReply.routing (.ofIndex 0) (.ofIndex 2) = .ok false ∧
    (∀ i ∈ firstSinkReply.routing.of (.ofIndex 0), i ∈ bothSinksReply.routing.of (.ofIndex 0)) ∧
    bothSinksReply.outcome = .ok () ∧
    (mazeRouter 1000).route twoSinks () bothSinksReply.routing (twoSinksRequest []) =
      bothSinksReply := by
  have hfailed : firstSinkReply.outcome = .error (.noPath (.ofIndex 2)) := by decide +kernel
  have hok : bothSinksReply.outcome = .ok () := by decide +kernel
  have hrouted : ∀ sink ∈ (twoSinksRequest []).sinks,
      twoSinks.isRouted bothSinksReply.routing (.ofIndex 0) sink = .ok true := by decide +kernel
  have hfirst := mazeRouter_gains 1000 {} (twoSinksRequest [5]) ready_twoSinks positional_twoSinks
  have hboth := mazeRouter_gains 1000 firstSinkReply.routing (twoSinksRequest [])
    ready_twoSinks positional_twoSinks
  rw [← firstSinkReply] at hfirst
  rw [← bothSinksReply] at hboth
  obtain ⟨-, hno, -⟩ := hfirst
  obtain ⟨hgains, -, hagain⟩ := hboth
  exact ⟨hfailed, by decide +kernel, (hno (.ofIndex 2) _ hfailed (.inl rfl)).2, hgains.kept, hok,
    hagain hok hrouted⟩

end Placement

end HoldMargin
