import HoldMargin.Proofs.Sketched
import HoldMargin.Proofs.Unbroken
/-!
# Routes stay forests

If every net's route is a forest when a session with the maze router
begins, every net's route is a forest at every turn of the session: before
and after every round, in between, where the branch has been taken out, and
after every route that was put back (`Placement.repair_isForested`). A
branch is therefore always found, and the session does not stop for a
broken law.
-/

namespace HoldMargin

namespace Placement

/-- **The route of every net is a forest.** -/
def IsForested (p : Placement) (r : Routing) : Prop :=
  ∀ id net, p.netlist.net? id = some net → p.device.IsForest (r.of id)

variable {p : Placement} {r r' : Routing} {net : NetId}

/-- Another route for one net leaves the others as they were. -/
theorem IsForested.of_other (hr : p.IsForested r)
    (hother : ∀ other, other ≠ net → r'.of other = r.of other)
    (hnet : p.device.IsForest (r'.of net)) : p.IsForested r' := by
  intro id n hn
  by_cases h : id = net
  · exact h ▸ hnet
  · rw [hother id h]
    exact hr id n hn

/-- In a sketch the route of the only net is all there is to look at. -/
theorem isForested_sketch {nodes : List SketchedNode} {edges : List (Nat × Nat)}
    {sinks : List (String × Nat)}
    (h : (Device.sketch nodes edges sinks).Descends (r.of (.ofIndex 0))) :
    (sketch nodes edges sinks).IsForested r := by
  intro id n hn
  obtain ⟨hlt, -⟩ := Array.getElem?_eq_some_iff.mp hn
  have hid : id = .ofIndex 0 := TableId.ext_index (Nat.lt_one_iff.mp hlt)
  exact hid ▸ h.isForest

theorem isForested_shortWays : twoSinks.IsForested shortWays := isForested_sketch descends_shortWays

end Placement

/-- A round with forests at each turn. -/
structure Round.IsForested (rd : Round) (p : Placement) : Prop where
  before : p.IsForested rd.before
  cut : p.IsForested rd.cut
  after : p.IsForested rd.after

/-- A pick with forests at each turn. -/
structure Pick.IsForested (pick : Pick) (p : Placement) : Prop where
  before : p.IsForested pick.before
  rounds : ∀ rd ∈ pick.rounds, rd.IsForested p
  after : p.IsForested pick.after

/-- **A round that moves the route of a net keeps all routes forests.** -/
theorem Round.Moves.isForested {rd : Round} {p : Placement} {net : NetId} {target : NodeId}
    {roots : NodeSet} {branch path : List EdgeId} {n : Net}
    (h : rd.Moves p net target roots branch path) (hn : p.netlist.net? net = some n)
    (hr : p.IsForested rd.before) : rd.IsForested p :=
  ⟨hr, hr.of_other h.cut_other (h.isForest_cut (hr net n hn)),
    hr.of_other h.after_other (h.isForest_after (hr net n hn))⟩

namespace Repairer

variable {rp : Repairer Unit} {limit : Nat} {c : Ranked} {kept : NodeSet} {before : Routing}
  {pg pg' : Progress Unit}

/-- What holds at the start of every round. -/
structure Sound (rp : Repairer Unit) (c : Ranked) (kept : NodeSet) (pg : Progress Unit) : Prop where
  forested : rp.placement.IsForested pg.routing
  avoid : ∀ n ∈ pg.avoid, n ∉ kept
  rounds : ∀ rd ∈ pg.rounds, rd.IsForested rp.placement

/-- What holds when repair is done with a connection. -/
structure Ends (rp : Repairer Unit) (end_ : Progress Unit × RepairOutcome) : Prop where
  forested : rp.placement.IsForested end_.1.routing
  rounds : ∀ rd ∈ end_.1.rounds, rd.IsForested rp.placement
  unbroken : ∀ msg, end_.2 ≠ .stopped (.brokenLaw msg)

theorem net?_of_keptNodes {p : Placement} (hkept : p.keptNodes c = .ok kept) :
    ∃ n, p.netlist.net? c.net = some n := by
  obtain ⟨roots, hroots, -⟩ := bind_eq_ok.mp hkept
  obtain ⟨n, hn, -⟩ := bind_eq_ok.mp hroots
  exact ⟨n, Placement.net_eq_ok.mp hn⟩

/-- **A round keeps the routes forests**, and does not stop for a broken
law. -/
theorem Sound.round (hrouter : rp.router = mazeRouter limit) (hd : rp.placement.device.Ready)
    (hkept : rp.placement.keptNodes c = .ok kept) (h : rp.Sound c kept pg) {res : RoundResult}
    (hround : rp.round c kept pg = (pg', res)) :
    rp.Sound c kept pg' ∧ ∀ msg, res ≠ .stopped (.brokenLaw msg) := by
  obtain ⟨n, hn⟩ := net?_of_keptNodes hkept
  obtain ⟨roots, target, hroots, htarget, hmem⟩ := Placement.keptNodes_eq_ok hkept
  have hf := h.forested c.net n hn
  rcases round_cases hround with ⟨rfl, e, hplan, rfl⟩ | ⟨branch, nodes, rd, reply, ha, hres⟩
  · refine ⟨h, fun msg he => ?_⟩
    cases he
    exact unbroken_plan hf kept msg hplan
  · obtain ⟨path, hmoves, -⟩ := ha.moves hrouter hd hf hroots htarget hmem h.avoid
    have hrd := hmoves.isForested hn (ha.before ▸ h.forested)
    refine ⟨⟨?_, ha.not_kept h.avoid, ha.forall_rounds h.rounds hrd⟩, fun msg he => ?_⟩
    · rw [ha.routing, ← ha.after]
      exact hrd.after
    · subst he
      rcases hres with ⟨e, he, hstop⟩ | ⟨e, -, hstop⟩ | ⟨-, ⟨e, he, hstop⟩ | ⟨m, grew, -, hstop⟩⟩
      · cases hstop
        rw [ha.asked, hrouter] at he
        exact mazeRouter_ne_brokenLaw _ _ _ _ msg he
      · cases hstop
      · cases hstop
        exact rp.placement.unbroken_measureNet _ _ _ msg he
      · cases hstop

/-- Giving up keeps the routes forests. -/
theorem Sound.giveUp (h : rp.Sound c kept pg) (hn : ∃ n, rp.placement.netlist.net? c.net = some n)
    (hbefore : rp.placement.IsForested before) (lengthAfter : Option Nat)
    (reason : RepairFailure) : rp.Ends (rp.giveUp c before pg lengthAfter reason) := by
  rcases giveUp_cases pg lengthAfter reason with ⟨e, he, heq⟩ | ⟨record, -, -, heq⟩
  · rw [heq]
    refine ⟨h.forested, h.rounds, fun msg hmsg => ?_⟩
    cases hmsg
    exact (Placement.failsOnly_net (r := before)).unbroken msg he
  · rw [heq]
    refine ⟨?_, h.rounds, fun msg => RepairOutcome.noConfusion⟩
    obtain ⟨n, hn⟩ := hn
    dsimp only
    split
    · have hother : ∀ other, other ≠ c.net →
          (pg.routing.set c.net (before.of c.net)).of other = pg.routing.of other :=
        fun other hne => by rw [Routing.of_set, if_neg hne]
      refine h.forested.of_other hother ?_
      · rw [Routing.of_set_self]
        exact hbefore c.net n hn
    · exact h.forested

/-- **The repair of a connection keeps the routes forests.** -/
theorem ends_repairOne (hrouter : rp.router = mazeRouter limit) (hd : rp.placement.device.Ready)
    (hbefore : rp.placement.IsForested before) (state : Unit) :
    rp.Ends (rp.repairOne c state before) := by
  generalize hrep : rp.repairOne c state before = rep
  obtain ⟨pg, out⟩ := rep
  rcases repairOne_cases hrep with ⟨e, he, rfl, rfl⟩ | ⟨kept, hkept, heq⟩
  · refine ⟨hbefore, by simp, fun msg hmsg => ?_⟩
    cases hmsg
    have hsound : FailsOnly (rp.placement.Warrants before)
        (rp.placement.net c.net >>= fun _ => rp.placement.keptNodes c) :=
      Placement.failsOnly_net.bind fun _ _ => Placement.failsOnly_keptNodes
    exact hsound.unbroken msg he
  · rw [← heq]
    have hn := net?_of_keptNodes hkept
    refine rounds_rule (P := rp.Sound c kept) (Q := rp.Ends) ?_ ?_ ?_ ?_ ?_ _
      ⟨hbefore, by simp, by simp⟩ _
    · intro pg pg' e h hround
      obtain ⟨h', hlaw⟩ := h.round hrouter hd hkept hround
      exact ⟨h'.forested, h'.rounds, fun msg hmsg => hlaw msg (by cases hmsg; rfl)⟩
    · intro pg pg' h hround
      exact (h.round hrouter hd hkept hround).1.giveUp hn hbefore _ _
    · intro pg pg' grew h hround
      exact (h.round hrouter hd hkept hround).1.giveUp hn hbefore _ _
    · intro pg pg' length grew h hround _
      obtain ⟨h', -⟩ := h.round hrouter hd hkept hround
      exact ⟨h'.forested, h'.rounds, fun msg => RepairOutcome.noConfusion⟩
    · intro pg pg' length grew h hround _
      obtain ⟨h', -⟩ := h.round hrouter hd hkept hround
      exact ⟨h', fun reason _ => h'.giveUp hn hbefore _ _⟩

/-- **A pick keeps the routes forests.** -/
theorem Picked.isForested {s s' : Session Unit} {out : RepairOutcome}
    (hp : rp.Picked s c s' pg out) (hrouter : rp.router = mazeRouter limit)
    (hd : rp.placement.device.Ready) (hs : rp.placement.IsForested s.routing) :
    rp.placement.IsForested s'.routing := by
  have hends := ends_repairOne (c := c) hrouter hd hs s.state
  rw [hp.repaired] at hends
  exact hp.routing ▸ hends.forested

variable (rp) in
/-- **A session keeps the routes forests.** -/
theorem isForested_run (hrouter : rp.router = mazeRouter limit) (hd : rp.placement.device.Ready)
    (s : Session Unit) (hs : rp.placement.IsForested s.routing)
    (hpicks : ∀ pick ∈ s.picks, pick.IsForested rp.placement) :
    rp.placement.IsForested (rp.run s).1.routing ∧
      (∀ pick ∈ (rp.run s).1.picks, pick.IsForested rp.placement) ∧
      ∀ msg, (rp.run s).2 ≠ .stopped (.brokenLaw msg) := by
  refine run_rule
    (I := fun s => rp.placement.IsForested s.routing ∧
      ∀ pick ∈ s.picks, pick.IsForested rp.placement)
    (E := fun x => rp.placement.IsForested x.1.routing ∧
      (∀ pick ∈ x.1.picks, pick.IsForested rp.placement) ∧
      ∀ msg, x.2 ≠ .stopped (.brokenLaw msg)) ?_ ?_ ?_ ?_ s ⟨hs, hpicks⟩
  · rintro s c rest s' stop ⟨hs, hpicks⟩ - - - hpick
    obtain ⟨pg, out, hp, hstop⟩ := pick_cases hpick
    have hends := ends_repairOne (c := c) hrouter hd hs s.state
    rw [hp.repaired] at hends
    have hs' := hp.isForested hrouter hd hs
    have hpicks' : ∀ pick ∈ s'.picks, pick.IsForested rp.placement :=
      hp.forall_picks hpicks ⟨hs, hends.rounds, hends.forested⟩
    rcases hstop with ⟨e, rfl, rfl⟩ | ⟨-, ⟨e, he, rfl⟩ | ⟨m, -, rfl, -⟩⟩
    · exact ⟨hs', hpicks', fun msg hmsg => hends.unbroken msg (by cases hmsg; rfl)⟩
    · refine ⟨hs', hpicks', fun msg hmsg => ?_⟩
      cases hmsg
      exact rp.placement.unbroken_measureNet _ _ _ msg he
    · exact ⟨hs', hpicks'⟩
  · exact fun s h _ => ⟨h.1, h.2, fun msg => SessionEnd.noConfusion⟩
  · exact fun s c rest h _ _ => ⟨h.1, h.2, fun msg => SessionEnd.noConfusion⟩
  · exact fun s c rest h _ _ _ => ⟨h.1, h.2, fun msg => SessionEnd.noConfusion⟩

end Repairer

namespace Placement

variable {p : Placement} {s : Settings} {limit : Nat} {r : Routing}

/-- **Every route is a forest at every turn of a session**, and the session
does not stop for a broken law. -/
theorem repair_isForested (hd : p.device.Ready) (hr : p.IsForested r) :
    let result := (p.mazeRepairer s limit).repair () r
    (∀ pick ∈ result.picks, pick.IsForested p) ∧ p.IsForested result.routing ∧
      ∀ msg, result.outcome ≠ .error (.brokenLaw msg) := by
  intro result
  rcases (p.mazeRepairer s limit).repair_cases () r with
    ⟨e, he, hrouting, hpicks, houtcome⟩ | ⟨m, -, heq⟩
  · refine ⟨by simp [result, hpicks], by rwa [hrouting], fun msg hmsg => ?_⟩
    rw [houtcome] at hmsg
    cases hmsg
    exact p.unbroken_measure r s msg he
  · obtain ⟨hrouting, hpicks, hlaw⟩ := Repairer.isForested_run (p.mazeRepairer s limit)
      rfl hd ((p.mazeRepairer s limit).start () r m (p.measure s r).events) hr
      fun pick hpick => nomatch hpick
    simp only [result, heq]
    exact ⟨hpicks, hrouting, fun msg hmsg => hlaw msg (Session.finish_eq_error.mp hmsg)⟩

/-- Two sinks are both picked, and their routes are forests throughout. -/
theorem repairedShortWays_isForested :
    repairedShortWays.picks.length = 2 ∧
      (∀ pick ∈ repairedShortWays.picks, pick.IsForested twoSinks) ∧
      twoSinks.IsForested repairedShortWays.routing ∧
      ∀ msg, repairedShortWays.outcome ≠ .error (.brokenLaw msg) := by
  refine ⟨?_, repair_isForested ready_twoSinks isForested_shortWays⟩
  rw [repairedShortWays, Repairer.repair_eq_insertionSort]
  decide +kernel

end Placement

end HoldMargin
