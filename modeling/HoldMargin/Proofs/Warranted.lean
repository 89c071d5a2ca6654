import HoldMargin.Proofs.Reordered
/-!
# Errors are warranted

An error says something of the placement and of the routes: that there is no
such pin, that a net has committed an edge which the device does not know,
that a route loops. `Placement.Warrants` and `Placement.Loops` are what is
said. Of each computation of a session it is shown that it fails only if it is
so, under the routing as it is at that moment, and this is closed under doing
one thing after the other (`FailsOnly.bind` and its companions). What stops a
session is therefore so under the routing that it leaves
(`Repairer.halts_of_repair`), if the router's errors are warranted too;
those of the maze router are (`mazeRouter_truthful`).
-/

namespace HoldMargin

open Relation

section Failing

variable {ε α β : Type} {P Q : ε → Prop}

/-- **A computation that fails, if it does, with an error of some kind.** -/
def FailsOnly (P : ε → Prop) (x : Except ε α) : Prop := ∀ e, x = .error e → P e

theorem failsOnly_ok (a : α) : FailsOnly P (.ok a : Except ε α) := by
  intro e h
  cases h

theorem FailsOnly.bind {x : Except ε α} {f : α → Except ε β} (hx : FailsOnly P x)
    (hf : ∀ a, x = .ok a → FailsOnly P (f a)) : FailsOnly P (x >>= f) := by
  intro e h
  rcases bind_eq_error.mp h with h | ⟨a, ha, h⟩
  · exact hx e h
  · exact hf a ha e h

theorem FailsOnly.mapM {f : α → Except ε β} {xs : List α} (hf : ∀ x ∈ xs, FailsOnly P (f x)) :
    FailsOnly P (xs.mapM f) := by
  intro e h
  obtain ⟨x, hx, h⟩ := exists_of_mapM_eq_error h
  exact hf x hx e h

theorem FailsOnly.foldlM {f : β → α → Except ε β} {xs : List α} {b : β}
    (hf : ∀ b, ∀ x ∈ xs, FailsOnly P (f b x)) : FailsOnly P (xs.foldlM f b) := by
  induction xs generalizing b with
  | nil => exact failsOnly_ok b
  | cons x xs ih =>
    rw [List.foldlM_cons]
    exact (hf b x List.mem_cons_self).bind fun _ _ =>
      ih fun b y hy => hf b y (List.mem_cons_of_mem _ hy)

theorem FailsOnly.mono {x : Except ε α} (h : FailsOnly P x) (hPQ : ∀ e, P e → Q e) :
    FailsOnly Q x := fun e he => hPQ e (h e he)

end Failing

namespace Placement

variable {p : Placement} {r : Routing} {k : Nat} {id : NetId} {n : Net} {w : Weighting}

/-! ## What errors say -/

/-- **What an error says, other than that a route loops, is so** of a placement under
a routing. -/
inductive Warrants (p : Placement) (r : Routing) : PassError → Prop
  | missingAlternateSource {k : Nat} {net : Net} {source sink : PinId} :
      p.netlist.nets[k]? = some net → p.needsAlternate source sink = .ok true →
      net.alternateSource = none →
      Warrants p r (.missingAlternateSource net.name (p.label source) (p.label sink))
  | unknownNet {id : NetId} : p.netlist.net? id = none → Warrants p r (.unknownNet id)
  | unknownPin {id : PinId} :
      (∀ pin, p.netlist.pin? id = some pin → p.device.pinNode? pin.onSite = none) →
      Warrants p r (.unknownPin id)
  | unknownEdge {k : Nat} {net : Net} {i : EdgeId} :
      p.netlist.nets[k]? = some net → i ∈ r.entry k → p.device.edge? i = none →
      Warrants p r (.unknownEdge net.name i)
  | unknownNode {k : Nat} {net : Net} {m : NodeId} :
      p.netlist.nets[k]? = some net → p.device.Touches (r.entry k) m → p.device.node? m = none →
      Warrants p r (.unknownNode net.name m)

/-- **An error that says that the route of a net loops**, and it does. -/
inductive Loops (p : Placement) (r : Routing) (id : NetId) : PassError → Prop
  | loop {net : Net} {m : NodeId} :
      p.netlist.net? id = some net → TransGen (p.device.Leads (r.of id)) m m →
      Loops p r id (.brokenLaw s!"committed route of net {net.name} loops through node {m}")

/-! ## Nets, pins and routes -/

theorem failsOnly_net : FailsOnly (p.Warrants r) (p.net id) := by
  intro e h
  unfold Placement.net at h
  split at h
  · cases h
  · rename_i hnone
    cases h
    exact .unknownNet hnone

theorem failsOnly_pin (pin : PinId) : FailsOnly (p.Warrants r) (p.pin pin) := by
  intro e h
  unfold Placement.pin at h
  split at h
  · cases h
  · rename_i hnone
    cases h
    refine .unknownPin fun found hfound => ?_
    rw [hnone] at hfound
    cases hfound

theorem failsOnly_pinNode (pin : PinId) : FailsOnly (p.Warrants r) (p.pinNode pin) := by
  refine (failsOnly_pin pin).bind fun found hfound e h => ?_
  split at h
  · cases h
  · rename_i hnone
    cases h
    refine .unknownPin fun other hother => ?_
    unfold Placement.pin at hfound
    rw [hother, Except.ok.injEq] at hfound
    rw [hfound, hnone]

theorem failsOnly_hopOf (hn : p.netlist.nets[k]? = some n) {i : EdgeId} (hi : i ∈ r.entry k) :
    FailsOnly (p.Warrants r) (p.hopOf n.name i) := by
  intro e h
  unfold hopOf at h
  split at h
  · cases h
  · rename_i hnone
    cases h
    exact .unknownEdge hn hi hnone

theorem failsOnly_routeOfNet : FailsOnly (p.Warrants r) (p.routeOfNet r id) :=
  failsOnly_net.bind fun _ hn =>
    (FailsOnly.mapM fun _ hi => failsOnly_hopOf (net_eq_ok.mp hn) hi).bind fun _ _ =>
      failsOnly_ok _

theorem failsOnly_rootsOfNet : FailsOnly (p.Warrants r) (p.rootsOfNet id) :=
  failsOnly_net.bind fun _ _ =>
    (FailsOnly.mapM fun pin _ => (failsOnly_pin pin).bind fun _ _ => failsOnly_ok _).bind
      fun _ _ => failsOnly_ok _

theorem failsOnly_isRouted (sink : PinId) : FailsOnly (p.Warrants r) (p.isRouted r id sink) :=
  (failsOnly_pinNode sink).bind fun _ _ => failsOnly_routeOfNet.bind fun _ _ =>
    failsOnly_rootsOfNet.bind fun _ _ => failsOnly_ok _

/-- **A branch that is not found** is one of a route that loops, or of none. -/
theorem failsOnly_branch (sink : PinId) :
    FailsOnly (fun e => p.Warrants r e ∨ p.Loops r id e) (p.branch r id sink) := by
  have hleft : ∀ e, p.Warrants r e → p.Warrants r e ∨ p.Loops r id e := fun _ => .inl
  refine ((failsOnly_pinNode sink).mono hleft).bind fun target _ =>
    (failsOnly_routeOfNet.mono hleft).bind fun route hroute =>
      (failsOnly_rootsOfNet.mono hleft).bind fun roots _ => ?_
  cases hbranch : route.branch roots target with
  | ok edges => exact failsOnly_ok edges
  | error m =>
    refine (failsOnly_net.mono hleft).bind fun n hn e h => ?_
    cases h
    have hloop : TransGen route.Leads m m := Route.transGen_of_climb hbranch fun m hm =>
      List.mem_singleton.mp hm ▸ .refl
    rw [(draws_of_routeOfNet hroute).leads_eq] at hloop
    exact .inr (.loop (net_eq_ok.mp hn) hloop)

/-! ## Connections and measurement -/

theorem failsOnly_needsAlternate (source sink : PinId) :
    FailsOnly (p.Warrants r) (p.needsAlternate source sink) := by
  refine (failsOnly_pin source).bind fun _ _ => ?_
  split
  · exact (failsOnly_pin sink).bind fun _ _ => failsOnly_ok _
  · exact failsOnly_ok _

theorem failsOnly_driverOf (hn : p.netlist.nets[k]? = some n) (source sink : PinId) :
    FailsOnly (p.Warrants r) (p.driverOf n source sink) := by
  refine (failsOnly_needsAlternate source sink).bind fun alternate halternate => ?_
  cases alternate with
  | false => exact failsOnly_ok _
  | true =>
    intro e h
    rw [if_pos rfl] at h
    split at h
    · cases h
    · rename_i hnone
      cases h
      exact .missingAlternateSource hn halternate hnone

theorem failsOnly_endsOf (driver sink : PinId) :
    FailsOnly (p.Warrants r) (p.endsOf driver sink) := by
  refine (failsOnly_pin sink).bind fun _ _ => ?_
  split
  · exact failsOnly_ok _
  · exact (failsOnly_pin driver).bind fun _ _ => failsOnly_ok _

theorem failsOnly_connect (hn : p.netlist.nets[k]? = some n) (source sink : PinId) (index : Nat) :
    FailsOnly (p.Warrants r) (p.connect id n source index sink).outcome := by
  unfold connect
  rw [Pass.outcome_bind]
  refine (failsOnly_driverOf hn source sink).bind fun driver _ => ?_
  rw [Pass.outcome_bind]
  refine (failsOnly_endsOf driver sink).bind fun ends _ => ?_
  cases ends <;> exact failsOnly_ok _

theorem failsOnly_connections : FailsOnly (p.Warrants r) (p.connections id).outcome := by
  unfold connections
  rw [Pass.outcome_bind]
  refine failsOnly_net.bind fun n hn => ?_
  split
  · rw [Pass.outcome_mapM]
    exact FailsOnly.mapM fun _ _ => failsOnly_connect (net_eq_ok.mp hn) _ _ _
  · exact failsOnly_ok _

/-- A node without a length is one that the route touches. -/
theorem failsOnly_lengthsFrom (hn : p.netlist.net? id = some n) {route : Route}
    (hroute : p.routeOfNet r id = .ok route) (roots : List NodeId) :
    FailsOnly (p.Warrants r) (route.lengthsFrom w p.device n.name roots) := by
  intro e h
  obtain ⟨v, hv, hnone, rfl⟩ := Route.exists_of_visits_eq_error h
  have hl := (Route.explores_walk route roots).leads hv
  rw [(draws_of_routeOfNet hroute).leads_eq] at hl
  exact .unknownNode hn (.of_leads_right hl) hnone

theorem failsOnly_usage (hn : p.netlist.net? id = some n) {route : Route}
    (hroute : p.routeOfNet r id = .ok route) :
    FailsOnly (p.Warrants r) (route.usage p.device n.name) := by
  refine FailsOnly.foldlM fun u m hm e h => ?_
  unfold Usage.visit at h
  split at h
  · cases h
  · rename_i hnone
    cases h
    exact .unknownNode hn ((draws_of_routeOfNet hroute).mem_nodes_iff.mp hm) hnone

theorem failsOnly_measureConnection (name : String) (route : Route) (ls : Lengths)
    (c : Connection) :
    FailsOnly (p.Warrants r) (p.measureConnection name route ls c).outcome := by
  unfold measureConnection
  split
  · exact failsOnly_ok _
  · rw [Pass.outcome_bind]
    refine (failsOnly_pinNode c.sink).bind fun pinNode _ => ?_
    dsimp only
    split <;> split <;> exact failsOnly_ok _

/-- **Measuring a net fails only with what is warranted.** -/
theorem failsOnly_measureNet : FailsOnly (p.Warrants r) (p.measureNet w r id).outcome := by
  unfold measureNet
  simp only [Pass.outcome_bind, Pass.outcome_mapM]
  refine failsOnly_connections.bind fun cs _ => failsOnly_net.bind fun n hn =>
    failsOnly_routeOfNet.bind fun route hroute =>
      (failsOnly_lengthsFrom (net_eq_ok.mp hn) hroute _).bind fun ls _ =>
        (failsOnly_usage (net_eq_ok.mp hn) hroute).bind fun u _ => ?_
  exact (FailsOnly.mapM fun c _ => failsOnly_measureConnection n.name route ls c).bind
    fun _ _ => failsOnly_ok _

/-- **So does measuring a design.** -/
theorem failsOnly_measure (s : Settings) : FailsOnly (p.Warrants r) (p.measure s r).outcome := by
  unfold measure
  simp only [Pass.outcome_bind, Pass.outcome_mapM]
  refine (FailsOnly.mapM fun net _ => ?_).bind fun _ _ => failsOnly_ok _
  unfold measureAnalyzed
  rw [Pass.outcome_bind]
  refine FailsOnly.bind (failsOnly_net.bind fun n _ => ?_) fun analyzed _ => ?_
  · cases n.source <;> exact failsOnly_ok _
  · cases analyzed with
    | false => exact failsOnly_ok _
    | true =>
      simp only [if_true, Pass.outcome_bind]
      exact failsOnly_measureNet.bind fun _ _ => failsOnly_ok _

/-! ## What repair plans -/

theorem failsOnly_keptNodes {c : Ranked} : FailsOnly (p.Warrants r) (p.keptNodes c) :=
  failsOnly_rootsOfNet.bind fun _ _ => (failsOnly_pinNode c.sink).bind fun _ _ =>
    (failsOnly_pin c.sink).bind fun _ _ => (failsOnly_pin c.driver).bind fun _ _ =>
      failsOnly_ok _

/-- The edges of a branch are known, so that there are nodes to avoid. -/
theorem exists_nodesToAvoid {sink : PinId} {branch : List EdgeId}
    (h : p.branch r id sink = .ok branch) (kept : NodeSet) :
    ∃ nodes, p.nodesToAvoid id kept branch = .ok nodes := by
  obtain ⟨target, roots, route, -, -, hdraws, hbranch⟩ := branch_eq_ok h
  have hhops : ∀ i ∈ branch, ∃ a,
      p.hopOf (((p.netlist.net? id).map Net.name).getD "") i = .ok a := by
    intro i hi
    obtain ⟨e, he, -⟩ := hdraws.arc i ((Route.ascends_of_climb hdraws hbranch).committed i hi)
    exact ⟨_, hopOf_eq_ok.mpr ⟨e, he, rfl⟩⟩
  obtain ⟨hops, hm⟩ := exists_mapM_eq_ok hhops
  exact ⟨_, bind_eq_ok.mpr ⟨hops, hm, rfl⟩⟩

end Placement

theorem Repairer.failsOnly_plan {σ : Type} (rp : Repairer σ) (c : Ranked) (kept : NodeSet)
    (r : Routing) :
    FailsOnly (fun e => rp.placement.Warrants r e ∨ rp.placement.Loops r c.net e)
      (rp.plan c kept r) := by
  refine (Placement.failsOnly_branch c.sink).bind fun branch hbranch => ?_
  obtain ⟨nodes, hnodes⟩ := Placement.exists_nodesToAvoid hbranch kept
  rw [hnodes]
  exact failsOnly_ok _

/-! ## Routers -/

/-- **A router whose errors are warranted**: if it says that the design and the device
disagree, they do so under the routing that it leaves. -/
def Router.Truthful {σ : Type} (router : Router σ) : Prop :=
  ∀ (p : Placement) (state : σ) (r : Routing) (request : RouteRequest) (e : PassError),
    (router.route p state r request).outcome = .error (.model e) →
      p.Warrants (router.route p state r request).routing e

/-- An error of a router that, if it is one of the model, is of some kind. -/
def RouterError.IsOf (P : PassError → Prop) (e : RouterError) : Prop := ∀ m, e = .model m → P m

theorem FailsOnly.mapError_model {α : Type} {P : PassError → Prop} {x : Except PassError α}
    (h : FailsOnly P x) : FailsOnly (RouterError.IsOf P) (x.mapError .model) := by
  rintro e he m rfl
  cases x with
  | ok a => cases he
  | error e =>
    cases he
    exact h m rfl

namespace Placement

variable {p : Placement} {r : Routing} {id : NetId} {avoid : NodeSet} {limit : Nat} {o : Occupancy}

theorem failsOnly_ofRouting : FailsOnly (p.Warrants r) (Occupancy.ofRouting p r) := by
  refine FailsOnly.foldlM fun o x hx => FailsOnly.foldlM fun o i hi e h => ?_
  have hn : p.netlist.nets[x.2]? = some x.1 := by
    simpa using List.mem_zipIdx_iff_getElem?.mp hx
  split at h
  · cases h
  · rename_i hnone
    cases h
    exact .unknownEdge hn hi hnone

theorem failsOnly_pathToSink (sink : PinId) :
    FailsOnly (RouterError.IsOf (p.Warrants r)) (p.pathToSink limit o r id avoid sink) := by
  refine (failsOnly_isRouted sink).mapError_model.bind fun routed _ => ?_
  cases routed with
  | true => exact failsOnly_ok _
  | false =>
    refine (failsOnly_pinNode sink).mapError_model.bind fun target _ => ?_
    have hquery : FailsOnly (p.Warrants r) (p.pathQuery o r id avoid target) :=
      failsOnly_routeOfNet.bind fun _ _ => failsOnly_rootsOfNet.bind fun _ _ => failsOnly_ok _
    refine hquery.mapError_model.bind fun query _ e h m hm => ?_
    subst hm
    -- that a search fails is no error of the model
    cases hsearch : query.search p.device limit with
    | ok path => rw [hsearch] at h; cases h
    | error failure => rw [hsearch] at h; cases failure <;> cases h

/-- What stops the router between two sinks is warranted by the routing as far as it
has come. -/
theorem warranted_of_routeSinks {sinks : List PinId} {r' : Routing} {e : PassError}
    (h : p.routeSinks limit id avoid sinks o r = (r', .error (.model e))) : p.Warrants r' e := by
  induction sinks generalizing o r with
  | nil => cases h
  | cons sink sinks ih =>
    rw [routeSinks] at h
    split at h
    · rename_i e' he
      cases h
      exact failsOnly_pathToSink sink _ he e rfl
    · exact ih h

end Placement

/-- **The errors of the maze router are warranted.** -/
theorem mazeRouter_truthful (limit : Nat) : (mazeRouter limit).Truthful := by
  intro p state r request e h
  simp only [mazeRouter] at h ⊢
  split at h
  · rename_i e' he
    cases h
    exact Placement.failsOnly_ofRouting e he
  · exact Placement.warranted_of_routeSinks (Prod.ext rfl h)

/-! ## Sessions -/

namespace Repairer

variable {σ : Type} {rp : Repairer σ} {c : Ranked} {kept : NodeSet} {before : Routing}
  {e : PassError}

/-- **What stops a session where it is**: an error that the routing warrants, or a
route that loops. -/
def Halts (rp : Repairer σ) (r : Routing) (e : PassError) : Prop :=
  rp.placement.Warrants r e ∨ ∃ id, rp.placement.Loops r id e

theorem halts_of_round (hrouter : rp.router.Truthful) {pg pg' : Progress σ}
    (h : rp.round c kept pg = (pg', .stopped e)) : rp.Halts pg'.routing e := by
  rcases round_cases h with ⟨rfl, e', hplan, hstop⟩ | ⟨branch, nodes, rd, reply, ha, hres⟩
  · cases hstop
    exact (rp.failsOnly_plan c kept _ e hplan).imp id fun hloops => ⟨c.net, hloops⟩
  · rw [ha.routing]
    rcases hres with ⟨e', he, hstop⟩ | ⟨e', -, hstop⟩ | ⟨-, ⟨e', he, hstop⟩ | ⟨m, grew, -, hstop⟩⟩
    · cases hstop
      rw [ha.asked] at he ⊢
      exact .inl (hrouter _ _ _ _ e he)
    · cases hstop
    · cases hstop
      exact .inl (Placement.failsOnly_measureNet e he)
    · cases hstop

theorem halts_of_giveUp {pg pg' : Progress σ} {lengthAfter : Option Nat} {reason : RepairFailure}
    (h : rp.giveUp c before pg lengthAfter reason = (pg', .stopped e)) :
    rp.Halts pg'.routing e := by
  rcases giveUp_cases pg lengthAfter reason with ⟨e', he, heq⟩ | ⟨record, -, -, heq⟩
  · rw [heq] at h
    cases h
    exact .inl (Placement.failsOnly_net e he)
  · rw [heq] at h
    cases h

theorem halts_of_repairOne (hrouter : rp.router.Truthful) {state : σ} {r : Routing}
    {pg : Progress σ} (h : rp.repairOne c state r = (pg, .stopped e)) :
    rp.Halts pg.routing e := by
  rcases repairOne_cases h with ⟨e', he, rfl, hstop⟩ | ⟨kept, -, heq⟩
  · cases hstop
    have hkept : FailsOnly (rp.placement.Warrants r)
        (rp.placement.net c.net >>= fun _ => rp.placement.keptNodes c) :=
      Placement.failsOnly_net.bind fun _ _ => Placement.failsOnly_keptNodes
    exact .inl (hkept e he)
  · have hends : ∀ e, (rp.rounds c kept r { state, routing := r }
        (rp.settings.repair.maxAttempts - 1)).2 = .stopped e →
        rp.Halts (rp.rounds c kept r { state, routing := r }
          (rp.settings.repair.maxAttempts - 1)).1.routing e := by
      refine rounds_rule (P := fun _ => True)
        (Q := fun end_ => ∀ e, end_.2 = .stopped e → rp.Halts end_.1.routing e)
        ?_ ?_ ?_ ?_ ?_ _ trivial _
      · intro pg pg' e _ hround e' he
        cases he
        exact halts_of_round hrouter hround
      · exact fun _ _ _ _ e he => halts_of_giveUp (Prod.ext rfl he)
      · exact fun _ _ _ _ _ e he => halts_of_giveUp (Prod.ext rfl he)
      · intro pg pg' length grew _ _ _ e he
        cases he
      · exact fun _ _ _ _ _ _ _ => ⟨trivial, fun _ _ e he => halts_of_giveUp (Prod.ext rfl he)⟩
    rw [heq] at hends
    exact hends e rfl

theorem halts_of_pick (hrouter : rp.router.Truthful) {s s' : Session σ} {rest : List Queued}
    (h : rp.pick s c rest = (s', some e)) : rp.Halts s'.routing e := by
  obtain ⟨pg, out, hp, hstop⟩ := pick_cases h
  rcases hstop with ⟨e', rfl, he⟩ | ⟨-, ⟨e', he, hsome⟩ | ⟨m, -, hnone, -⟩⟩
  · cases he
    rw [hp.routing]
    exact halts_of_repairOne hrouter hp.repaired
  · cases hsome
    exact .inl (Placement.failsOnly_measureNet e he)
  · cases hnone

/-- **What stops a repair is so under the routing that it leaves.** -/
theorem halts_of_repair (hrouter : rp.router.Truthful) {state : σ} {r : Routing}
    (h : (rp.repair state r).outcome = .error e) : rp.Halts (rp.repair state r).routing e := by
  rcases repair_cases rp state r with ⟨e', he, hrouting, -, hout⟩ | ⟨m, -, hlast⟩
  · rw [hrouting]
    rw [hout] at h
    cases h
    exact .inl (Placement.failsOnly_measure rp.settings e he)
  · rw [hlast] at h ⊢
    refine run_rule (I := fun _ => True)
      (E := fun last => last.2 = .stopped e → rp.Halts last.1.routing e) ?_
      (fun _ _ _ hno => by cases hno) (fun _ _ _ _ _ _ hno => by cases hno)
      (fun _ _ _ _ _ _ _ hno => by cases hno) _ trivial (Session.finish_eq_error.mp h)
    intro s c rest s' stop _ _ _ _ hpick
    cases stop with
    | none => trivial
    | some e' =>
      intro he
      cases he
      exact halts_of_pick hrouter hpick

end Repairer

end HoldMargin
