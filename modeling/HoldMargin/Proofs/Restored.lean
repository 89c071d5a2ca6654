import HoldMargin.Proofs.Fed
import HoldMargin.Proofs.Sketched
import HoldMargin.Proofs.Tracked
/-!
# Routes that are put back

A connection may be given up on when it has lost its route. If the policy
is to put routes back, it then has the route it was picked with, whatever
the router has done to the net in any of the rounds, and it is recorded
with the length that it had. That length was read off the entry in the
queue, so it is the measured one only because an entry that counts is up to
date (`Repairer.Tracks`).
-/

namespace HoldMargin

/-- **A pick that has been undone**: every net has the route it was picked
with, the record says so, and the sink is measured at the length that is on
record. -/
structure Pick.Restored {σ : Type} (rp : Repairer σ) (pick : Pick) (record : Abandonment) :
    Prop where
  routes : ∀ net, pick.after.of net = pick.before.of net
  restored : record.restored = true
  lengthBefore : record.lengthBefore = pick.candidate.length
  lengthAfter : record.lengthAfter = some record.lengthBefore
  measured : ∃ m,
    (rp.placement.measureNet rp.settings.weighting pick.after pick.candidate.net).outcome = .ok m ∧
      m.length? pick.candidate.sink = some record.lengthBefore

namespace Repairer

variable {σ : Type} {rp : Repairer σ} {c : Ranked} {state : σ} {r : Routing}
  {record : Abandonment}

/-- **A connection that has its route back**, with what is on record of it. -/
structure PutsBack (c : Ranked) (r : Routing) (record : Abandonment) (pg : Progress σ) : Prop where
  restored : record.restored = true
  lengthBefore : record.lengthBefore = c.length
  lengthAfter : record.lengthAfter = some record.lengthBefore
  route : pg.routing.of c.net = r.of c.net

/-- Giving up on a connection that is cut off puts its route back, whatever the
rounds have done to the net. -/
theorem putsBack_of_giveUp (hrollback : rp.settings.repair.rollbackOnFailure = true)
    (hcuts : record.reason.cutsOff = true) {pg pg' : Progress σ} {length : Option Nat}
    {reason : RepairFailure}
    (h : rp.giveUp c r pg length reason = (pg', .abandoned record)) :
    PutsBack c r record pg' := by
  obtain ⟨hreason, hbefore, hrestored, hafter, hrouting⟩ := giveUp_eq_abandoned h
  have hback : record.restored = true := by
    rw [hrestored, ← hreason, hcuts, hrollback, Bool.and_self]
  rw [if_pos hback] at hafter hrouting
  exact ⟨hback, hbefore, hafter, by rw [hrouting, Routing.of_set_self]⟩

/-- **A connection that is cut off has its route back** when repair is done
with it, if routes are put back. -/
theorem putsBack_repairOne (hrollback : rp.settings.repair.rollbackOnFailure = true)
    {pg : Progress σ} (h : rp.repairOne c state r = (pg, .abandoned record))
    (hcuts : record.reason.cutsOff = true) : PutsBack c r record pg := by
  rcases repairOne_cases h with ⟨e, -, -, hno⟩ | ⟨kept, -, h⟩
  · cases hno
  -- no invariant is needed: whatever the rounds have done is undone at the end
  refine rounds_rule (P := fun _ => True)
    (Q := fun done => done = (pg, .abandoned record) → PutsBack c r record pg)
    ?_ ?_ ?_ ?_ ?_ { state, routing := r } trivial _ h
  · exact fun _ _ _ _ _ hno => nomatch hno
  · exact fun _ _ _ _ heq => putsBack_of_giveUp hrollback hcuts heq
  · exact fun _ _ _ _ _ heq => putsBack_of_giveUp hrollback hcuts heq
  · exact fun _ _ _ _ _ _ _ hno => nomatch hno
  · exact fun _ _ _ _ _ _ _ =>
      ⟨trivial, fun _ _ heq => putsBack_of_giveUp hrollback hcuts heq⟩

/-- **What repair cuts off it restores**, if routes are put back and the router
leaves other nets alone. This holds of every pick of a session, also of one
that is stopped later. -/
theorem repair_restores (hconf : rp.router.Confined)
    (hrollback : rp.settings.repair.rollbackOnFailure = true) {pick : Pick}
    (hpick : pick ∈ (rp.repair state r).picks) (habandoned : pick.outcome = .abandoned record)
    (hcuts : record.reason.cutsOff = true) : pick.Restored rp record := by
  refine picks_rule (I := rp.Tracks)
    (Q := fun pick => pick.outcome = .abandoned record → pick.Restored rp record) state r
    (fun m hm => Tracks.start rp state hm _)
    (fun s c rest s' hs hnext h => hs.of_pick hconf hnext h) ?_ pick hpick habandoned
  intro s c rest s' pg out hs hnext hp hout
  have hrep : rp.repairOne c s.state s.routing = (pg, .abandoned record) := hout ▸ hp.repaired
  have hback := putsBack_repairOne hrollback hrep hcuts
  have hroutes : ∀ net, pg.routing.of net = s.routing.of net := by
    intro net
    by_cases hne : net = c.net
    · rw [hne, hback.route]
    · exact repairOne_other hconf hrep net hne
  -- the entry that was picked counts, so its length is that of the design
  obtain ⟨m, hm, hlength⟩ := (hs.next?_eq_some hnext).1.length?
  refine ⟨hroutes, hback.restored, hback.lengthBefore, hback.lengthAfter, m, ?_,
    hback.lengthBefore ▸ hlength⟩
  rw [Placement.measureNet_congr (hroutes c.net), hm]

end Repairer

/-! ## A router that leaves nothing behind -/

/-- The router that takes out the route of the net and then finds no path. -/
def strippingRouter : Router Unit where
  route _ _ r request := {
    state := ()
    routing := r.set request.net ∅
    outcome := match request.sinks with
      | [] => .ok ()
      | sink :: _ => .error (.noPath sink) }

theorem strippingRouter_confined : strippingRouter.Confined :=
  fun _ _ _ _ _ hnet => by rw [strippingRouter, Routing.of_set, if_neg hnet]

namespace Placement

/-- Repair of the short ways with a router that takes them out. -/
def strippedShortWays : Repairer Unit where
  placement := twoSinks
  settings := {}
  router := strippingRouter

/-- Both sinks lose their routes, and both have them back. -/
theorem outcome_strippedShortWays :
    (strippedShortWays.repair () shortWays).outcome = .ok {
      repaired := 0
      abandoned := [{
          net := "n", driver := "S0/Q", sink := "S1/A", lengthBefore := 10, lengthAfter := some 10
          attempts := 1, reason := .routerFailed, restored := true }, {
          net := "n", driver := "S0/Q", sink := "S1/B", lengthBefore := 10, lengthAfter := some 10
          attempts := 1, reason := .routerFailed, restored := true }]
      processed := 2
      attempts := 2
      limitReached := false } := by
  rw [Repairer.repair_eq_insertionSort]
  decide +kernel

theorem strippedShortWays_restored :
    ∃ pick ∈ (strippedShortWays.repair () shortWays).picks, ∃ record : Abandonment,
      pick.outcome = .abandoned record ∧ record.reason.cutsOff = true ∧
        pick.Restored strippedShortWays record := by
  have hconf : strippedShortWays.router.Confined := strippingRouter_confined
  obtain ⟨pick, hpick, hrecord⟩ := Repairer.exists_pick_of_mem_abandoned
    outcome_strippedShortWays List.mem_cons_self
  exact ⟨pick, hpick, _, hrecord, rfl, Repairer.repair_restores hconf rfl hpick hrecord rfl⟩

end Placement

end HoldMargin
