import HoldMargin.Proofs.Climbing
import HoldMargin.Proofs.Restored
import HoldMargin.Proofs.Settled
/-!
# Connections that are left shorter

Repair asks for another way, and the maze router answers with the one that
costs it least, which is not always a longer one. A connection that is given
up on without being cut off keeps the way it was moved to, so it may be left
shorter than it was (`Placement.repairedDoubleWay_shorter`). That takes a
detour: another route, which enters none of the nodes that were to be
avoided, and these include every avoidable node of every branch that was
taken out. Without one, a connection is no shorter than it was, and in any
case the lengths on record are the ones it is measured at
(`Placement.repair_keeps_length`).
-/

namespace HoldMargin

/-! ## The maze router keeps off what is to be avoided -/

namespace Placement

variable {p : Placement} {limit : Nat} {o : Occupancy} {r : Routing} {net : NetId}
  {avoid : NodeSet} {sink : PinId} {path : List EdgeId} {u n : NodeId}

/-- **What is committed for a sink** enters none of the nodes to be avoided, but for
the node of the sink. -/
theorem leads_of_pathToSink (hd : p.device.Ready)
    (h : p.pathToSink limit o r net avoid sink = .ok path)
    (hl : p.device.Leads ((r.of net).union path) u n) :
    p.device.Leads (r.of net) u n ∨ n ∉ avoid ∨ p.pinNode sink = .ok n := by
  rcases pathToSink_cases h with ⟨rfl, -⟩ | ⟨target, query, htarget, hq, h⟩
  · exact .inl hl
  obtain ⟨i, hi, e, he, hsrc, rfl⟩ := hl
  rcases IdSet.mem_union.mp hi with hi | hi
  · exact .inl ⟨i, hi, e, he, hsrc, rfl⟩
  have hn := Device.mem_entered.mpr ⟨i, hi, e, he, rfl⟩
  rcases (entered_of_search hd hq h hn).2.2 with heq | ⟨hno, -⟩
  · exact .inr (.inr (heq ▸ htarget))
  · exact .inr (.inl hno)

/-- **Sink by sink the route keeps off the nodes to be avoided**, whether all sinks
are routed in the end or not. -/
theorem leads_of_routeSinks (hd : p.device.Ready) {sinks : List PinId}
    (hl : p.device.Leads ((p.routeSinks limit net avoid sinks o r).1.of net) u n) :
    p.device.Leads (r.of net) u n ∨ n ∉ avoid ∨ ∃ sink ∈ sinks, p.pinNode sink = .ok n := by
  induction sinks generalizing o r with
  | nil => exact .inl hl
  | cons sink sinks ih =>
    rw [routeSinks] at hl
    split at hl
    · exact .inl hl
    · rename_i path hpath
      rcases ih hl with hl | hn | ⟨sink', hsink', hnode⟩
      · rw [Routing.of_set_self] at hl
        rcases leads_of_pathToSink hd hpath hl with hl | hn | hnode
        · exact .inl hl
        · exact .inr (.inl hn)
        · exact .inr (.inr ⟨sink, List.mem_cons_self, hnode⟩)
      · exact .inr (.inl hn)
      · exact .inr (.inr ⟨sink', List.mem_cons_of_mem _ hsink', hnode⟩)

end Placement

/-- **The maze router enters no node that it is to avoid**, but for the nodes of the
sinks it is asked for; this holds whether it succeeds or not. -/
theorem leads_of_mazeRouter {p : Placement} {r : Routing} {limit : Nat} {request : RouteRequest}
    {u n : NodeId} (hd : p.device.Ready)
    (hl : p.device.Leads (((mazeRouter limit).route p () r request).routing.of request.net) u n) :
    p.device.Leads (r.of request.net) u n ∨ n ∉ request.avoid ∨
      ∃ sink ∈ request.sinks, p.pinNode sink = .ok n := by
  simp only [mazeRouter] at hl
  split at hl
  · exact .inl hl
  · exact Placement.leads_of_routeSinks hd hl

/-! ## Rounds that are left behind -/

/-- **A node that is avoided** from the round on that takes it out. -/
def Placement.Avoidable (p : Placement) (c : Ranked) (n : NodeId) : Prop :=
  ∃ kept, p.keptNodes c = .ok kept ∧ p.isAvoidable kept n = true

/-- **A route that has left the rounds behind**: it enters no node that one of them
was to avoid, and that is every avoidable node of the branch that the round
took out. -/
structure LeavesBehind (p : Placement) (c : Ranked) (rounds : List Round) (r : Routing) :
    Prop where
  avoided : ∀ rd ∈ rounds, ∀ n, rd.Clears p c n → p.Avoidable c n → n ∈ rd.avoid
  entered : ∀ rd ∈ rounds, ∀ n ∈ rd.avoid, ∀ u, ¬ p.device.Leads (r.of c.net) u n

namespace Repairer

variable {rp : Repairer Unit} {limit : Nat} {c : Ranked} {kept : NodeSet} {before : Routing}
  {pg pg' : Progress Unit} {branch : List EdgeId} {nodes : List NodeId} {rd : Round}
  {reply : RouteReply Unit}

/-- **What a round takes out it avoids**, as far as that may be avoided. -/
theorem Answered.mem_avoid (h : rp.Answered c kept pg pg' branch nodes rd reply)
    (hkept : rp.placement.keptNodes c = .ok kept) {n : NodeId}
    (hclears : rd.Clears rp.placement c n) (hav : rp.placement.Avoidable c n) : n ∈ rd.avoid := by
  obtain ⟨kept', hkept', hav⟩ := hav
  rw [hkept, Except.ok.injEq] at hkept'
  subst hkept'
  rw [h.avoided, h.avoid, IdSet.mem_union]
  exact .inr (h.mem_nodes_iff.mpr ⟨hav, hclears⟩)

/-- **After a round the route enters nothing that is to be avoided.** What the round
adds to it was entered by the branch only, and the router keeps off it. -/
theorem Answered.not_leads (h : rp.Answered c kept pg pg' branch nodes rd reply)
    (hrouter : rp.router = mazeRouter limit) (hd : rp.placement.device.Ready)
    (hkept : rp.placement.keptNodes c = .ok kept) (hs : rp.Sound c kept pg)
    (hclear : ∀ n ∈ pg.avoid, ∀ u, ¬ rp.placement.device.Leads (pg.routing.of c.net) u n) :
    ∀ n ∈ pg'.avoid, ∀ u, ¬ rp.placement.device.Leads (pg'.routing.of c.net) u n := by
  obtain ⟨net, hnet⟩ := net?_of_keptNodes hkept
  obtain ⟨-, target, -, htarget, hmem⟩ := Placement.keptNodes_eq_ok hkept
  obtain ⟨branch', hbranch, hplan⟩ := bind_eq_ok.mp h.plan
  obtain ⟨nodes', hnodes, hplan⟩ := bind_eq_ok.mp hplan
  cases hplan
  obtain ⟨_, _, -, -, htrims⟩ :=
    Placement.trims_of_branch hbranch (hs.forested c.net net hnet)
  intro n hn u hl
  rw [h.routing, h.asked, hrouter] at hl
  rcases leads_of_mazeRouter hd hl with hl | hno | ⟨sink, hsink, hnode⟩
  · rw [h.cut, Routing.of_set_self, htrims.leads_diff_iff] at hl
    rw [h.avoid, IdSet.mem_union] at hn
    rcases hn with hn | hn
    · exact hclear n hn u hl.1
    · exact hl.2 ((Placement.mem_nodesToAvoid_iff hnodes).mp hn).2
  · exact hno hn
  · -- the node of the sink is kept, so it is not to be avoided
    rw [List.mem_singleton.mp hsink, htarget, Except.ok.injEq] at hnode
    exact h.not_kept hs.avoid n hn (hnode ▸ hmem)

/-- **Rounds that have been left behind so far**, beginning with the route that the
connection was picked with. -/
structure Leaving (rp : Repairer Unit) (c : Ranked) (kept : NodeSet) (before : Routing)
    (pg : Progress Unit) : Prop where
  sound : rp.Sound c kept pg
  first : (pg.rounds.map Round.before ++ [pg.routing]).head? = some before
  avoided : ∀ rd ∈ pg.rounds, ∀ n, rd.Clears rp.placement c n → rp.placement.Avoidable c n →
    n ∈ rd.avoid
  within : ∀ rd ∈ pg.rounds, rd.avoid ⊆ pg.avoid
  entered : ∀ n ∈ pg.avoid, ∀ u, ¬ rp.placement.device.Leads (pg.routing.of c.net) u n

theorem leaving_start {state : Unit} (hbefore : rp.placement.IsForested before) :
    rp.Leaving c kept before { state, routing := before } where
  sound := ⟨hbefore, by simp, by simp⟩
  first := rfl
  avoided _ hrd := nomatch hrd
  within _ hrd := nomatch hrd
  entered n hn := absurd hn IdSet.not_mem_empty

namespace Leaving

theorem leavesBehind (h : rp.Leaving c kept before pg) :
    LeavesBehind rp.placement c pg.rounds pg.routing :=
  ⟨h.avoided, fun rd hrd n hn => h.entered n (IdSet.mem_of_subset (h.within rd hrd) hn)⟩

/-- **A round that reroutes the connection is left behind as well.** -/
theorem of_round (hrouter : rp.router = mazeRouter limit) (hd : rp.placement.device.Ready)
    (hkept : rp.placement.keptNodes c = .ok kept) (h : rp.Leaving c kept before pg)
    {length : Option Nat} {grew : Bool}
    (hround : rp.round c kept pg = (pg', .rerouted length grew)) :
    rp.Leaving c kept before pg' ∧ pg'.rounds.head?.map Round.before = some before := by
  have hsound := (h.sound.round hrouter hd hkept hround).1
  rcases round_cases hround with ⟨-, e, -, hno⟩ | ⟨branch, nodes, rd, reply, ha, -⟩
  · cases hno
  have hbefores : pg'.rounds.map Round.before = pg.rounds.map Round.before ++ [pg.routing] := by
    rw [ha.rounds, List.map_append, List.map_singleton, ha.before]
  have hwithin : ∀ rd' ∈ pg.rounds, rd'.avoid ⊆ pg'.avoid := by
    intro rd' hrd'
    refine IdSet.subset_iff.mpr fun n hn => ?_
    rw [ha.avoid, IdSet.mem_union]
    exact .inl (IdSet.mem_of_subset (h.within rd' hrd') hn)
  refine ⟨⟨hsound, ?_, ?_, ?_, ha.not_leads hrouter hd hkept h.sound h.entered⟩, ?_⟩
  · rw [hbefores, List.head?_append_of_ne_nil _ (by simp), h.first]
  · exact ha.forall_rounds h.avoided fun n hclears hav => ha.mem_avoid hkept hclears hav
  · exact ha.forall_rounds hwithin (IdSet.subset_iff.mpr fun n hn => ha.avoided ▸ hn)
  · rw [← List.head?_map, hbefores, h.first]

end Leaving

end Repairer

/-! ## Given up on at a length -/

/-- **A length that a connection is measured at.** -/
def Placement.MeasuresAt (p : Placement) (s : Settings) (r : Routing) (c : Ranked)
    (length : Nat) : Prop :=
  ∃ m, (p.measureNet s.weighting r c.net).outcome = .ok m ∧ m.length? c.sink = some length

theorem Placement.measuresAt_congr {p : Placement} {s : Settings} {r r' : Routing} {c : Ranked}
    {length : Nat} (h : r.of c.net = r'.of c.net) :
    p.MeasuresAt s r c length ↔ p.MeasuresAt s r' c length := by
  unfold MeasuresAt
  rw [measureNet_congr h]

theorem Placement.MeasuresAt.unique {p : Placement} {s : Settings} {r : Routing} {c : Ranked}
    {k l : Nat} (hk : p.MeasuresAt s r c k) (hl : p.MeasuresAt s r c l) : k = l := by
  obtain ⟨m, hm, hk⟩ := hk
  obtain ⟨m', hm', hl⟩ := hl
  rw [hm, Except.ok.injEq] at hm'
  rwa [← hm', hk, Option.some.injEq] at hl

theorem RepairFailure.cutsOff_eq_false {reason : RepairFailure} :
    reason.cutsOff = false ↔ reason = .nothingToAvoid ∨ reason = .roundsSpent := by
  cases reason <;> simp [cutsOff]

namespace Repairer

variable {rp : Repairer Unit} {limit : Nat} {c : Ranked} {kept : NodeSet} {before : Routing}
  {pg : Progress Unit} {length : Nat}

/-- **A connection that stays rerouted** when it is given up on: its route is not put
back, and all rounds are left behind. -/
structure StaysRerouted (rp : Repairer Unit) (c : Ranked) (before : Routing)
    (record : Abandonment) (pg : Progress Unit) : Prop where
  restored : record.restored = false
  reason : record.reason = .nothingToAvoid ∨ record.reason = .roundsSpent
  first : pg.rounds.head?.map Round.before = some before
  leavesBehind : LeavesBehind rp.placement c pg.rounds pg.routing

/-- What is on record of a connection that is given up on at a length: its route was
put back, or it stays rerouted and is measured at that length. -/
def Records (rp : Repairer Unit) (c : Ranked) (before : Routing)
    (done : Progress Unit × RepairOutcome) : Prop :=
  ∀ record length, done.2 = .abandoned record → record.lengthAfter = some length →
    record.lengthBefore = c.length ∧
      (length = record.lengthBefore ∧ done.1.routing.of c.net = before.of c.net ∨
        rp.placement.MeasuresAt rp.settings done.1.routing c length ∧
          rp.StaysRerouted c before record done.1)

/-- A connection without a length has one on record only if its route is put
back. -/
theorem records_giveUp_none (reason : RepairFailure) :
    rp.Records c before (rp.giveUp c before pg none reason) := by
  generalize hgive : rp.giveUp c before pg none reason = done
  obtain ⟨pg', out⟩ := done
  rintro record length rfl hlength
  obtain ⟨-, hbefore, -, hafter, hrouting⟩ := giveUp_eq_abandoned hgive
  rw [hlength] at hafter
  split at hafter
  · rename_i hrestored
    rw [if_pos hrestored] at hrouting
    exact ⟨hbefore, .inl ⟨Option.some.inj hafter, by rw [hrouting, Routing.of_set_self]⟩⟩
  · cases hafter

/-- A connection that is not cut off stays rerouted. -/
theorem records_giveUp_some {reason : RepairFailure} (hcuts : reason.cutsOff = false)
    (h : rp.Leaving c kept before pg) (hfirst : pg.rounds.head?.map Round.before = some before)
    (hmeasures : rp.placement.MeasuresAt rp.settings pg.routing c length) :
    rp.Records c before (rp.giveUp c before pg (some length) reason) := by
  have hrounds : (rp.giveUp c before pg (some length) reason).1.rounds = pg.rounds :=
    rounds_giveUp pg (some length) reason
  generalize hgive : rp.giveUp c before pg (some length) reason = done at hrounds ⊢
  obtain ⟨pg', out⟩ := done
  rintro record length' rfl hlength
  obtain ⟨rfl, hbefore, hrestored, hafter, hrouting⟩ := giveUp_eq_abandoned hgive
  rw [hcuts, Bool.false_and] at hrestored
  rw [hrestored, if_neg Bool.false_ne_true] at hafter hrouting
  rw [hafter, Option.some.injEq] at hlength
  subst hlength
  dsimp only at hrounds ⊢
  rw [hrouting]
  refine ⟨hbefore, .inr ⟨hmeasures, hrestored, RepairFailure.cutsOff_eq_false.mp hcuts, ?_, ?_⟩⟩
  · rw [hrounds]
    exact hfirst
  · rw [hrounds, hrouting]
    exact h.leavesBehind

/-- **What the repair of a connection has on record.** -/
theorem records_repairOne (hrouter : rp.router = mazeRouter limit)
    (hd : rp.placement.device.Ready) (hbefore : rp.placement.IsForested before) (state : Unit) :
    rp.Records c before (rp.repairOne c state before) := by
  generalize hrep : rp.repairOne c state before = rep
  obtain ⟨pg, out⟩ := rep
  rcases repairOne_cases hrep with ⟨e, -, -, rfl⟩ | ⟨kept, hkept, heq⟩
  · exact fun _ _ hno => nomatch hno
  rw [← heq]
  refine rounds_rule (P := rp.Leaving c kept before) (Q := rp.Records c before) ?_ ?_ ?_ ?_ ?_ _
    (leaving_start hbefore) _
  · exact fun _ _ _ _ _ _ _ hno => nomatch hno
  · exact fun _ _ _ _ => records_giveUp_none _
  · exact fun _ _ _ _ _ => records_giveUp_none _
  · exact fun _ _ _ _ _ _ _ _ _ hno => nomatch hno
  · intro pg pg' length grew h hround _
    obtain ⟨h', hfirst⟩ := h.of_round hrouter hd hkept hround
    exact ⟨h', fun reason hcuts => records_giveUp_some hcuts h' hfirst (measured_of_round hround)⟩

end Repairer

/-! ## Sessions -/

/-- **A pick that left its connection on a detour**: it was given up on without being
cut off, the route of the net is another one, and that has left all rounds
behind, the first of which took out the branch that the connection was picked
with. -/
structure Pick.Detours (pick : Pick) (p : Placement) (record : Abandonment) : Prop where
  restored : record.restored = false
  reason : record.reason = .nothingToAvoid ∨ record.reason = .roundsSpent
  moved : pick.after.of pick.candidate.net ≠ pick.before.of pick.candidate.net
  first : pick.rounds.head?.map Round.before = some pick.before
  leavesBehind : LeavesBehind p pick.candidate pick.rounds pick.after

namespace Placement

variable {p : Placement} {s : Settings} {limit : Nat} {r : Routing}

/-- **A connection that is given up on is no shorter than it was**, unless it is left on
a detour; and it was and is measured at the lengths that are on record. -/
theorem repair_keeps_length (hd : p.device.Ready) (hr : p.IsForested r) :
    ∀ pick ∈ ((p.mazeRepairer s limit).repair () r).picks, ∀ record length,
      pick.outcome = .abandoned record → record.lengthAfter = some length →
        p.MeasuresAt s pick.before pick.candidate record.lengthBefore ∧
          p.MeasuresAt s pick.after pick.candidate length ∧
            (record.lengthBefore ≤ length ∨ pick.Detours p record) := by
  refine Repairer.picks_rule
    (I := fun session => (p.mazeRepairer s limit).Tracks session ∧ p.IsForested session.routing)
    () r (fun m hm => ⟨Repairer.Tracks.start _ () hm _, hr⟩) ?_ ?_
  · rintro session c rest session' ⟨htracks, hforested⟩ hnext hpick
    obtain ⟨pg, out, hp, -⟩ := Repairer.pick_cases hpick
    exact ⟨htracks.of_pick (mazeRouter_confined limit) hnext hpick, hp.isForested rfl hd hforested⟩
  · rintro session c rest session' pg out ⟨htracks, hforested⟩ hnext hp record length hout hlength
    have hrecords : (p.mazeRepairer s limit).Records c session.routing
        ((p.mazeRepairer s limit).repairOne c session.state session.routing) :=
      Repairer.records_repairOne rfl hd hforested session.state
    rw [hp.repaired] at hrecords
    obtain ⟨hbefore, hcases⟩ := hrecords record length hout hlength
    -- the entry that was picked counts, so its length is that of the design
    have hpicked : p.MeasuresAt s session.routing c record.lengthBefore :=
      hbefore ▸ (htracks.next?_eq_some hnext).1.length?
    refine ⟨hpicked, ?_⟩
    rcases hcases with ⟨rfl, hback⟩ | ⟨hmeasures, hstays⟩
    · exact ⟨(measuresAt_congr hback).mpr hpicked, .inl (Nat.le_refl _)⟩
    refine ⟨hmeasures, ?_⟩
    by_cases hsame : pg.routing.of c.net = session.routing.of c.net
    · -- on one route there is one length
      exact .inl (Nat.le_of_eq (hpicked.unique ((measuresAt_congr hsame).mp hmeasures)))
    · exact .inr ⟨hstays.restored, hstays.reason, hsame, hstays.first, hstays.leavesBehind⟩

/-! ### Beside a bounce

The sink is routed over a double line. The other way to it is over a node
that may be passed again and again; it costs the router less and is shorter.
The first round takes it, and there is nothing on it that the second round
could avoid. -/

/-- A sink that is reached over a double line or over a bounce. -/
def besideBounce : Placement :=
  sketch [⟨.sitePin, none⟩, ⟨.output, none⟩, ⟨.double, none⟩, ⟨.pinFeed, none⟩, ⟨.sitePin, none⟩,
      ⟨.pinBounce, none⟩]
    [(0, 1), (1, 2), (2, 3), (3, 4), (1, 5), (5, 3)] [("A", 4)]

/-- The sink routed over the double line. -/
def doubleWay : Routing := .sketch [0, 1, 2, 3]

/-- What repair makes of the way over the double line. -/
def repairedDoubleWay : RepairResult Unit := (besideBounce.mazeRepairer {} 1000).repair () doubleWay

theorem ready_besideBounce : besideBounce.device.Ready := Device.ready_reindex (by decide +kernel)

theorem isForested_doubleWay : besideBounce.IsForested doubleWay := by
  have hdescends : besideBounce.device.Descends (doubleWay.of (.ofIndex 0)) := by decide +kernel
  exact isForested_sketch hdescends

theorem outcome_repairedDoubleWay :
    repairedDoubleWay.outcome = .ok {
      repaired := 0
      abandoned := [{
        net := "n", driver := "S0/Q", sink := "S1/A", lengthBefore := 23, lengthAfter := some 6
        attempts := 2, reason := .nothingToAvoid, restored := false }]
      processed := 1
      attempts := 2
      limitReached := false } := by
  rw [repairedDoubleWay, Repairer.repair_eq_insertionSort]
  decide +kernel

/-- The connection over the double line is left on the shorter way. -/
theorem repairedDoubleWay_detours :
    ∃ pick ∈ repairedDoubleWay.picks, ∃ record, pick.outcome = .abandoned record ∧
      record.lengthAfter = some 6 ∧
        besideBounce.MeasuresAt {} pick.before pick.candidate 23 ∧
          besideBounce.MeasuresAt {} pick.after pick.candidate 6 ∧
            pick.Detours besideBounce record := by
  obtain ⟨pick, hpick, hrecord⟩ :=
    Repairer.exists_pick_of_mem_abandoned outcome_repairedDoubleWay List.mem_cons_self
  obtain ⟨hbefore, hafter, hcases⟩ :=
    repair_keeps_length ready_besideBounce isForested_doubleWay pick hpick _ 6 hrecord rfl
  have hdetours := hcases.resolve_left (by decide)
  exact ⟨pick, hpick, _, hrecord, rfl, hbefore, hafter, hdetours⟩

/-- **Repair may leave a connection shorter than it found it**, with the usual
settings. -/
theorem repairedDoubleWay_shorter :
    besideBounce.device.Ready ∧ besideBounce.IsForested doubleWay ∧
      Settings.check {} = .ok {} ∧
      ∃ summary, repairedDoubleWay.outcome = .ok summary ∧
        ¬ ∀ record ∈ summary.abandoned, ∀ length, record.lengthAfter = some length →
          record.lengthBefore ≤ length := by
  refine ⟨ready_besideBounce, isForested_doubleWay, by decide, _, outcome_repairedDoubleWay,
    fun hall => ?_⟩
  exact absurd (hall _ List.mem_cons_self 6 rfl) (by decide)

end Placement

end HoldMargin
