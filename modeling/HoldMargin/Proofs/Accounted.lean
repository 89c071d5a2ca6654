import HoldMargin.Proofs.Bounded
import HoldMargin.Proofs.Restored
import HoldMargin.Proofs.Traced
/-!
# What a summary says

The numbers and records of a session, and what it reports, are kept in
different places and on different ways out of its two loops. They agree all
the same (`Repairer.repair_addsUp`): a session that is not stopped has either
repaired or recorded what it picked, every record says what became of its
connection (`Abandonment.AddsUp`), and what is reported beyond the first
measurement is reported of the records, one after the other.

Whether the limit on connections was of any consequence is read off the queue,
and the queue knows a net as it was when it was measured last
(`Routing.lastMeasured`). That is the routing at hand if the router leaves
other nets alone; the queue keeps track of it in any case.
-/

namespace HoldMargin

/-! ## Records -/

/-- **A record that adds up.** -/
structure Abandonment.AddsUp (settings : Settings) (a : Abandonment) : Prop where
  short : a.lengthBefore < settings.hold.minWirelength
  attempted : 1 ≤ a.attempts
  bounded : a.attempts ≤ max 1 settings.repair.maxAttempts
  /-- Only the reason and the policy decide whether the route is put back. -/
  restored : a.restored = (a.reason.cutsOff && settings.repair.rollbackOnFailure)
  lengthAfter_restored : a.restored = true → a.lengthAfter = some a.lengthBefore
  lengthAfter_lost : a.reason.cutsOff = true → a.restored = false → a.lengthAfter = none
  lengthAfter_kept : a.reason.cutsOff = false →
    ∃ length < settings.hold.minWirelength, a.lengthAfter = some length
  spent : a.reason = .roundsSpent → a.attempts = max 1 settings.repair.maxAttempts

/-- **What repair says of a connection** adds up: it was too short, and after
some rounds it is long enough, or there is a record with its length and the
number of its rounds. -/
structure RepairOutcome.AddsUp (settings : Settings) (c : Ranked) (rounds : Nat)
    (out : RepairOutcome) : Prop where
  short : c.length < settings.hold.minWirelength
  attempted : 1 ≤ rounds
  ended : (∃ length, settings.hold.minWirelength ≤ length ∧ out = .repaired length) ∨
    ∃ a, out = .abandoned a ∧ a.AddsUp settings ∧ a.lengthBefore = c.length ∧ a.attempts = rounds

namespace Repairer

variable {σ : Type} {rp : Repairer σ} {c : Ranked} {kept : NodeSet} {before : Routing}
  {pg pg' : Progress σ} {out : RepairOutcome}

theorem attempts_of_giveUp {lengthAfter : Option Nat} {reason : RepairFailure} {a : Abandonment}
    (h : rp.giveUp c before pg lengthAfter reason = (pg', .abandoned a)) :
    a.attempts = pg.rounds.length := by
  unfold giveUp at h
  cases hnet : rp.placement.net c.net with
  | error e =>
    rw [hnet] at h
    cases h
  | ok net =>
    rw [hnet] at h
    cases h
    rfl

/-- Giving up reports nothing by itself. -/
theorem events_giveUp (pg : Progress σ) (lengthAfter : Option Nat) (reason : RepairFailure) :
    (rp.giveUp c before pg lengthAfter reason).1.events = pg.events := by
  rcases giveUp_cases pg lengthAfter reason with ⟨e, -, heq⟩ | ⟨record, -, -, heq⟩
  · rw [heq]
  · rw [heq]

/-- A round reports nothing. -/
theorem findingsOf_round {res : RoundResult} (h : rp.round c kept pg = (pg', res)) :
    Pass.findingsOf pg'.events = Pass.findingsOf pg.events := by
  unfold round at h
  split at h
  · cases h
    rfl
  · dsimp only at h
    split at h
    · cases h
      rfl
    · cases h
      rfl
    · split at h <;> cases h <;>
        rw [Pass.findingsOf_append, Pass.findingsOf_silent, List.append_nil]

/-! ## One connection -/

/-- **The repair of a connection is over** and has reported nothing yet. -/
structure Concludes (rp : Repairer σ) (c : Ranked) (done : Progress σ × RepairOutcome) : Prop where
  silent : Pass.findingsOf done.1.events = []
  ended : (∃ e, done.2 = .stopped e) ∨ done.2.AddsUp rp.settings c done.1.rounds.length

/-- **Giving up makes a record that adds up**, after as many rounds as there
have been. -/
theorem concludes_giveUp {lengthAfter : Option Nat} {reason : RepairFailure}
    (hshort : c.length < rp.threshold) (hsilent : Pass.findingsOf pg.events = [])
    (hone : 1 ≤ pg.rounds.length)
    (hmost : pg.rounds.length ≤ max 1 rp.settings.repair.maxAttempts)
    (hspent : reason = .roundsSpent → pg.rounds.length = max 1 rp.settings.repair.maxAttempts)
    (hafter : if reason.cutsOff then lengthAfter = none
      else ∃ length < rp.threshold, lengthAfter = some length) :
    rp.Concludes c (rp.giveUp c before pg lengthAfter reason) := by
  refine ⟨by rw [events_giveUp, hsilent], ?_⟩
  rcases giveUp_cases pg lengthAfter reason with ⟨e, -, heq⟩ | ⟨a, -, -, heq⟩
  · rw [heq]
    exact .inl ⟨e, rfl⟩
  rw [heq]
  obtain ⟨rfl, hbefore, hrestored, hlength, -⟩ := giveUp_eq_abandoned heq
  have hattempts : a.attempts = pg.rounds.length := attempts_of_giveUp heq
  have hadds : a.AddsUp rp.settings := by
    refine ⟨hbefore ▸ hshort, hattempts ▸ hone, hattempts ▸ hmost, hrestored, fun hback => ?_,
      fun hcuts hback => ?_, fun hcuts => ?_, fun hreason => hattempts ▸ hspent hreason⟩
    · rw [hlength, if_pos hback]
    · rw [if_pos hcuts] at hafter
      rw [hlength, hback, hafter]
      rfl
    · rw [hcuts] at hafter hrestored
      rw [hlength, hrestored]
      exact hafter
  exact .inr ⟨hshort, hone, .inr ⟨a, rfl, hadds, hbefore, hattempts⟩⟩

/-- **Repair adds up**, for one connection that was too short. -/
theorem concludes_repairOne {state : σ} {r : Routing} (hshort : c.length < rp.threshold)
    (h : rp.repairOne c state r = (pg, out)) : rp.Concludes c (pg, out) := by
  rcases repairOne_cases h with ⟨e, -, rfl, rfl⟩ | ⟨kept, -, h⟩
  · exact ⟨rfl, .inl ⟨e, rfl⟩⟩
  rw [← h]
  -- the rounds so far and those that may still follow are as many as are allowed
  refine rounds_induction
    (P := fun further pg => Pass.findingsOf pg.events = [] ∧
      pg.rounds.length + (further + 1) = max 1 rp.settings.repair.maxAttempts)
    (Q := rp.Concludes c) ?_ ?_ ?_ ?_ ?_ ?_ ?_ _ _ ⟨rfl, ?_⟩
  · rintro further pg pg' e ⟨hsilent, -⟩ hr
    exact ⟨(findingsOf_round hr).trans hsilent, .inl ⟨e, rfl⟩⟩
  · rintro further pg pg' ⟨hsilent, hmost⟩ hr
    have hlength := length_rounds_of_round hr (by simp)
    exact concludes_giveUp hshort ((findingsOf_round hr).trans hsilent) (by omega) (by omega)
      nofun rfl
  · rintro further pg pg' grew ⟨hsilent, hmost⟩ hr
    have hlength := length_rounds_of_round hr (by simp)
    exact concludes_giveUp hshort ((findingsOf_round hr).trans hsilent) (by omega) (by omega)
      nofun rfl
  · rintro further pg pg' length grew ⟨hsilent, -⟩ hr hlong
    have hlength := length_rounds_of_round hr (by simp)
    exact ⟨(findingsOf_round hr).trans hsilent,
      .inr ⟨hshort, by rw [hlength]; exact Nat.le_add_left _ _, .inl ⟨length, hlong, rfl⟩⟩⟩
  · rintro further pg pg' length ⟨hsilent, hmost⟩ hr hlt
    have hlength := length_rounds_of_round hr (by simp)
    exact concludes_giveUp hshort ((findingsOf_round hr).trans hsilent) (by omega) (by omega) nofun
      ⟨length, hlt, rfl⟩
  · rintro pg pg' length ⟨hsilent, hmost⟩ hr hlt
    have hlength := length_rounds_of_round hr (by simp)
    exact concludes_giveUp hshort ((findingsOf_round hr).trans hsilent) (by omega) (by omega)
      (fun _ => by omega) ⟨length, hlt, rfl⟩
  · rintro further pg pg' length ⟨hsilent, hmost⟩ hr -
    have hlength := length_rounds_of_round hr (by simp)
    exact ⟨(findingsOf_round hr).trans hsilent, by omega⟩
  · rw [List.length_nil]
    omega

/-! ## A session -/

/-- Measuring a net again reports nothing. -/
theorem findingsOf_requeue (s : Session σ) (net : NetId) :
    Pass.findingsOf (rp.requeue s net).1.events = Pass.findingsOf s.events := by
  unfold requeue
  dsimp only
  split <;> simp

/-- **A pick reports what became of it**, beside what its repair reports. -/
theorem findingsOf_pick {s s' : Session σ} {rest : List Queued} {stop : Option PassError}
    (h : rp.pick s c rest = (s', stop)) (hrep : rp.repairOne c s.state s.routing = (pg, out)) :
    Pass.findingsOf s'.events = Pass.findingsOf s.events ++ Pass.findingsOf pg.events ++
      Pass.findingsOf (rp.reportOutcome out) := by
  have hs' : s' = (rp.pick s c rest).1 := by rw [h]
  rw [hs', pick, hrep]
  cases out <;> simp [findingsOf_requeue]

end Repairer

/-- **The routing as it was measured last**: every net has the route that its
latest pick has left it with. -/
def Routing.lastMeasured (r : Routing) (picks : List Pick) : Routing :=
  picks.foldl (fun seen pick => seen.set pick.candidate.net (pick.after.of pick.candidate.net)) r

theorem Routing.lastMeasured_concat (r : Routing) (picks : List Pick) (pick : Pick) :
    r.lastMeasured (picks ++ [pick]) =
      (r.lastMeasured picks).set pick.candidate.net (pick.after.of pick.candidate.net) := by
  rw [lastMeasured, List.foldl_append]
  rfl

namespace Repairer

variable {σ : Type} {rp : Repairer σ}

/-- **A connection that remains**: it is at risk and too short as its net was
measured last, and has not been picked. -/
structure Remains (rp : Repairer σ) (r : Routing) (picks : List Pick) (c : Ranked) : Prop where
  atRisk : rp.placement.AtRisk rp.settings (r.lastMeasured picks) c
  unpicked : ∀ pick ∈ picks, pick.candidate.key ≠ c.key
  short : c.length < rp.threshold

/-- **A session that adds up so far**, from the routing it started with and what
was found there. -/
structure Accounts (rp : Repairer σ) (r : Routing) (found : List Finding) (s : Session σ) :
    Prop where
  picks : ∀ pick ∈ s.picks, pick.outcome.AddsUp rp.settings pick.candidate pick.rounds.length
  within : ∀ limit, rp.settings.repair.pickLimit = some limit → s.picks.length ≤ limit
  findings : Pass.findingsOf s.events =
    found ++ s.picks.flatMap fun pick => Pass.findingsOf (rp.reportOutcome pick.outcome)
  tracks : rp.Tracks { s with routing := r.lastMeasured s.picks }
  current : rp.router.Confined → ∀ net, (r.lastMeasured s.picks).of net = s.routing.of net

variable {r : Routing} {found : List Finding} {s s' : Session σ} {c : Ranked} {rest : List Queued}

theorem Accounts.start {state : σ} {dm : Measurement}
    (hdm : (rp.placement.measure rp.settings r).outcome = .ok dm) (events : List Event) :
    rp.Accounts r (Pass.findingsOf events) (rp.start state r dm events) where
  picks := by simp [Repairer.start]
  within _ _ := Nat.zero_le _
  findings := by simp [Repairer.start]
  tracks := Tracks.start rp state hdm events
  current _ _ := rfl

/-- **A pick keeps the accounts**, if there was room for one more and the session
goes on. -/
theorem Accounts.of_pick (h : rp.Accounts r found s) (hnext : s.next? = some (c, rest))
    (hshort : c.length < rp.threshold) (hused : rp.isLimitUsed s = false)
    (hpick : rp.pick s c rest = (s', none)) : rp.Accounts r found s' := by
  obtain ⟨pg, out, hp, hgo⟩ := pick_cases hpick
  have hout : ∀ e, out ≠ .stopped e := by
    rcases hgo with ⟨e, -, hno⟩ | ⟨hout, -⟩
    · cases hno
    · exact hout
  obtain ⟨hsilent, hended⟩ := concludes_repairOne hshort hp.repaired
  have hknown : ∀ net, (r.lastMeasured s'.picks).of net =
      if net = c.net then s'.routing.of c.net else (r.lastMeasured s.picks).of net := by
    intro net
    rw [hp.picks, Routing.lastMeasured_concat, Routing.of_set, hp.routing]
  refine ⟨hp.forall_picks h.picks (hended.resolve_left fun ⟨e, he⟩ => hout e he),
    fun limit hlimit => ?_, ?_, ?_, fun hconf net => ?_⟩
  · rw [isLimitUsed, hlimit, Option.any_some, decide_eq_false_iff_not] at hused
    rw [hp.picks, List.length_append, List.length_singleton]
    omega
  · rw [findingsOf_pick hpick hp.repaired, hsilent, List.append_nil, h.findings, hp.picks,
      List.flatMap_append, List.flatMap_singleton, List.append_assoc]
  · have hsame : ∀ net, net ≠ c.net →
        (r.lastMeasured s'.picks).of net = (r.lastMeasured s.picks).of net :=
      fun net hne => by rw [hknown, if_neg hne]
    have hnet : (r.lastMeasured s'.picks).of c.net = s'.routing.of c.net := by
      rw [hknown, if_pos rfl]
    obtain ⟨m, hc⟩ := continues_of_known hpick hsame hnet
    exact h.tracks.of_continues hnext hc
  · rw [hknown]
    split
    · rename_i hnet
      rw [hnet]
    · rename_i hnet
      rw [h.current hconf, hp.routing, repairOne_other hconf hp.repaired net hnet]

/-! ## The summary -/

/-- Every pick is counted as repaired or has a record. -/
theorem processed_summary (limitReached : Bool)
    (h : ∀ pick ∈ s.picks,
      pick.outcome.AddsUp rp.settings pick.candidate pick.rounds.length) :
    (s.summary limitReached).processed =
      (s.summary limitReached).repaired + (s.summary limitReached).abandoned.length := by
  unfold Session.summary
  dsimp only
  generalize s.picks = picks at h ⊢
  induction picks with
  | nil => rfl
  | cons pick picks ih =>
    have hrest := ih fun pick' hmem => h pick' (List.mem_cons_of_mem _ hmem)
    rw [List.length_cons, List.countP_cons, List.filterMap_cons, hrest]
    rcases (h pick List.mem_cons_self).ended with ⟨length, -, hout⟩ | ⟨a, hout, -⟩
    · simp only [hout, if_true]
      omega
    · simp only [hout, List.length_cons, Bool.false_eq_true, if_false]
      omega

/-- The records are those of the picks. -/
theorem mem_abandoned_summary {limitReached : Bool} {a : Abandonment} :
    a ∈ (s.summary limitReached).abandoned ↔ ∃ pick ∈ s.picks, pick.outcome = .abandoned a := by
  simp only [Session.summary, List.mem_filterMap]
  refine exists_congr fun pick => and_congr Iff.rfl ?_
  cases pick.outcome <;> simp

/-- What is reported of the picks is what there is to report of the records. -/
theorem flatMap_reportOutcome (limitReached : Bool) :
    (s.picks.flatMap fun pick => Pass.findingsOf (rp.reportOutcome pick.outcome)) =
      (s.summary limitReached).abandoned.flatMap (·.findings rp.threshold) := by
  unfold Session.summary
  dsimp only
  induction s.picks with
  | nil => rfl
  | cons pick picks ih =>
    rw [List.flatMap_cons, List.filterMap_cons, ih]
    cases pick.outcome with
    | abandoned a => simp [reportOutcome]
    | _ => rfl

end Repairer

/-- **A summary that adds up**, of the repair of the routing `r` and its result. -/
structure SessionSummary.AddsUp {σ : Type} (rp : Repairer σ) (r : Routing)
    (result : RepairResult σ) (summary : SessionSummary) : Prop where
  processed : summary.processed = summary.repaired + summary.abandoned.length
  picked : summary.processed = result.picks.length
  attempts : summary.attempts = (result.picks.map (·.rounds.length)).sum
  records : ∀ a ∈ summary.abandoned, a.AddsUp rp.settings ∧
    ∃ pick ∈ result.picks, pick.outcome = .abandoned a ∧
      a.lengthBefore = pick.candidate.length ∧ a.attempts = pick.rounds.length
  within : ∀ limit, rp.settings.repair.pickLimit = some limit → summary.processed ≤ limit
  /-- The limit was used up while there was something left to pick. -/
  limitReached : summary.limitReached = true ↔
    rp.settings.repair.pickLimit = some summary.processed ∧ ∃ c, rp.Remains r result.picks c
  /-- What is known of the nets is up to date if the router is confined. -/
  current : rp.router.Confined → ∀ net, (r.lastMeasured result.picks).of net = result.routing.of net
  findings : Pass.findingsOf result.events =
    Pass.findingsOf (rp.placement.measure rp.settings r).events ++
      summary.abandoned.flatMap (·.findings rp.threshold)

/-- **What is reported of a record**: that the connection was given up on, and
also that its route is lost if it was not put back. -/
theorem Abandonment.codes_findings (a : Abandonment) (threshold : Nat) :
    (a.findings threshold).map (·.code.text) =
      "H201" :: if a.reason.cutsOff = true ∧ a.restored = false then ["H202"] else [] := by
  have hgiven : FindingCode.repairGivenUp.text = "H201" := by decide +kernel
  have hlost : FindingCode.routeLost.text = "H202" := by decide +kernel
  unfold findings
  cases a.reason.cutsOff <;> cases a.restored <;>
    simp [finding, unroutedFinding, hgiven, hlost]

namespace Repairer

variable {σ : Type} {rp : Repairer σ} {r : Routing} {found : List Finding} {s : Session σ}

/-- A connection remains if the queue knows it to be at risk and too short. -/
theorem Accounts.remains_iff (h : rp.Accounts r found s) {c : Ranked} :
    rp.Remains r s.picks c ↔
      rp.placement.AtRisk rp.settings (r.lastMeasured s.picks) c ∧ c.key ∈ s.unpicked ∧
        c.length < rp.threshold := by
  constructor
  · rintro ⟨hrisk, hnew, hshort⟩
    exact ⟨hrisk, (h.tracks.unpicked c.key).mpr ⟨hrisk.offers, hnew⟩, hshort⟩
  · rintro ⟨hrisk, hun, hshort⟩
    exact ⟨hrisk, ((h.tracks.unpicked c.key).mp hun).2, hshort⟩

/-- **Nothing remains when a session is settled.** -/
theorem Accounts.not_remains (h : rp.Accounts r found s)
    (hend : ∀ c rest, s.next? = some (c, rest) → rp.threshold ≤ c.length) (c : Ranked) :
    ¬ rp.Remains r s.picks c := by
  rw [h.remains_iff]
  rintro ⟨hrisk, hun, hshort⟩
  cases hnext : s.next? with
  | none => exact h.tracks.next?_eq_none hnext hrisk hun
  | some next =>
    obtain ⟨first, rest⟩ := next
    have hfirst := (h.tracks.next?_eq_some hnext).2.2 c hrisk hun
    have hle := Ranked.length_le_of_notLonger hfirst
    have hlong := hend first rest hnext
    omega

/-- The limit is used up when there have been as many picks. -/
theorem Accounts.pickLimit_of_used (h : rp.Accounts r found s) (hused : rp.isLimitUsed s = true) :
    rp.settings.repair.pickLimit = some s.picks.length := by
  unfold isLimitUsed at hused
  cases hlimit : rp.settings.repair.pickLimit with
  | none => simp [hlimit] at hused
  | some limit =>
    have hle := h.within limit hlimit
    have hge : limit ≤ s.picks.length := by simpa [hlimit] using hused
    rw [Nat.le_antisymm hge hle]

/-- Accounts that are closed when a session is over add up. -/
theorem Accounts.addsUp {limitReached : Bool}
    (h : rp.Accounts r (Pass.findingsOf (rp.placement.measure rp.settings r).events) s)
    (hlimit : limitReached = true ↔
      rp.settings.repair.pickLimit = some s.picks.length ∧ ∃ c, rp.Remains r s.picks c)
    {end_ : SessionEnd} : (s.summary limitReached).AddsUp rp r (s.finish end_) where
  processed := processed_summary limitReached h.picks
  picked := rfl
  attempts := List.length_flatMap
  records a ha := by
    obtain ⟨pick, hpick, hout⟩ := mem_abandoned_summary.mp ha
    rcases (h.picks pick hpick).ended with ⟨length, -, hno⟩ | ⟨a', ha', hadds, hbefore, hrounds⟩
    · rw [hout] at hno
      cases hno
    · obtain rfl : a = a' := by
        rw [hout] at ha'
        cases ha'
        rfl
      exact ⟨hadds, pick, hpick, hout, hbefore, hrounds⟩
  within := h.within
  limitReached := hlimit
  current := h.current
  findings := by
    rw [← flatMap_reportOutcome]
    exact h.findings

/-- The accounts of a repair are closed whenever it ends without being stopped. -/
theorem addsUp_of_repair {state : σ} {summary : SessionSummary}
    (h : (rp.repair state r).outcome = .ok summary) : summary.AddsUp rp r (rp.repair state r) := by
  rcases repair_cases rp state r with ⟨e, -, -, -, he⟩ | ⟨m, hm, hlast⟩
  · rw [he] at h
    cases h
  rw [hlast] at h ⊢
  refine run_rule
    (I := rp.Accounts r (Pass.findingsOf (rp.placement.measure rp.settings r).events))
    (E := fun last => ∀ summary, (last.1.finish last.2).outcome = .ok summary →
      summary.AddsUp rp r (last.1.finish last.2))
    ?_ ?_ ?_ ?_ _ (Accounts.start hm _) summary h
  · intro s c rest s' stop hs hnext hshort hused hpick
    cases stop with
    | none => exact hs.of_pick hnext hshort hused hpick
    | some e => exact fun summary hno => nomatch hno
  · rintro s hs hnext summary hsummary
    cases hsummary
    refine hs.addsUp (iff_of_false Bool.false_ne_true fun ⟨_, c, hc⟩ => ?_)
    exact hs.not_remains (fun c rest hno => by rw [hnext] at hno; cases hno) c hc
  · rintro s c rest hs hnext hlong summary hsummary
    cases hsummary
    refine hs.addsUp (iff_of_false Bool.false_ne_true fun ⟨_, c', hc⟩ => ?_)
    refine hs.not_remains (fun c₁ rest₁ heq => ?_) c' hc
    rw [hnext, Option.some.injEq, Prod.mk.injEq] at heq
    exact heq.1 ▸ hlong
  · rintro s c rest hs hnext hshort hused summary hsummary
    cases hsummary
    obtain ⟨hrisk, hun, -⟩ := hs.tracks.next?_eq_some hnext
    exact hs.addsUp (iff_of_true rfl
      ⟨hs.pickLimit_of_used hused, c, hs.remains_iff.mpr ⟨hrisk, hun, hshort⟩⟩)

/-- **A repair that is not stopped adds up**, whatever the router does: its
counts, its records and its reports agree with each other and with what a
router that counts its requests has counted. -/
theorem repair_addsUp (rp : Repairer σ) (state : σ) (r : Routing) {summary : SessionSummary}
    (h : (rp.repair state r).outcome = .ok summary) :
    summary.AddsUp rp r (rp.repair state r) ∧
      rp.counting.repair (state, 0) r =
        { rp.repair state r with state := ((rp.repair state r).state, summary.attempts) } ∧
      (summary.abandoned.flatMap (·.findings rp.threshold)).map (·.code.text) =
        summary.abandoned.flatMap fun a =>
          "H201" :: if a.reason.cutsOff = true ∧ a.restored = false then ["H202"] else [] := by
  have hadds := addsUp_of_repair h
  refine ⟨hadds, ?_, ?_⟩
  · rw [repair_counting, RepairResult.counted, hadds.attempts, List.length_flatMap]
  · rw [List.map_flatMap]
    exact List.flatMap_congr fun a _ => a.codes_findings rp.threshold

end Repairer

/-! ## A sink that stays cut off -/

namespace Placement

/-- Repair of the short ways with a router that may not search at all. Only one
connection may be picked, and no route is put back. -/
def idleShortWays : Repairer Unit :=
  twoSinks.mazeRepairer { repair := { maxConnections := 1, rollbackOnFailure := false } } 0

/-- The first sink is cut off, and the second one is not tried any more. -/
theorem outcome_idleShortWays :
    (idleShortWays.repair () shortWays).outcome = .ok {
      repaired := 0
      abandoned := [{
        net := "n", driver := "S0/Q", sink := "S1/A", lengthBefore := 10, lengthAfter := none
        attempts := 1, reason := .routerFailed, restored := false }]
      processed := 1
      attempts := 1
      limitReached := true } := by
  rw [Repairer.repair_eq_insertionSort]
  decide +kernel

theorem idleShortWays_addsUp :
    ∃ summary, (idleShortWays.repair () shortWays).outcome = .ok summary ∧
      summary.AddsUp idleShortWays shortWays (idleShortWays.repair () shortWays) ∧
      (∃ c, idleShortWays.Remains shortWays (idleShortWays.repair () shortWays).picks c) ∧
      (summary.abandoned.flatMap (·.findings idleShortWays.threshold)).map (·.code.text) =
        ["H201", "H202"] := by
  obtain ⟨hadds, -, hcodes⟩ :=
    Repairer.repair_addsUp idleShortWays () shortWays outcome_idleShortWays
  exact ⟨_, outcome_idleShortWays, hadds, (hadds.limitReached.mp rfl).2, hcodes⟩

end Placement

end HoldMargin
