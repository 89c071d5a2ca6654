import HoldMargin.Proofs.Sketched
import HoldMargin.Proofs.Tracked
/-!
# Repair without a queue

A plain session keeps no queue and no generations. It measures the whole
design before every pick, takes the shortest connection at risk that it has
not picked yet, repairs it and counts what comes of it. A session with its
queue does the same, pick for pick (`Repairer.repair_eq_plainRepair`): the
plain session that stands where a session stands takes the same connection
next, since the queue keeps track of the design.
-/

namespace HoldMargin

/-- A plain session, as far as it has come. -/
structure PlainSession (σ : Type) where
  /-- The state of the router. -/
  state : σ
  routing : Routing
  /-- The connections picked so far, as they were measured when picked. -/
  picked : List Ranked := []
  summary : SessionSummary :=
    { repaired := 0, abandoned := [], processed := 0, attempts := 0, limitReached := false }

/-- The summary with one more pick, on which some rounds were spent. -/
def SessionSummary.count (sm : SessionSummary) (rounds : Nat) (out : RepairOutcome) :
    SessionSummary where
  repaired := match out with
    | .repaired _ => sm.repaired + 1
    | _ => sm.repaired
  abandoned := match out with
    | .abandoned record => sm.abandoned ++ [record]
    | _ => sm.abandoned
  processed := sm.processed + 1
  attempts := sm.attempts + rounds
  limitReached := sm.limitReached

/-- The connections of all nets of the design. -/
def Placement.keys (p : Placement) : List NetSink :=
  p.netlist.nets.toList.flatMap fun net =>
    match (p.connections net.id).outcome with
    | .ok cs => cs.map Connection.key
    | .error _ => []

theorem Placement.Offers.mem_keys {p : Placement} {s : Settings} {k : NetSink}
    (h : p.Offers s k) : k ∈ p.keys := by
  obtain ⟨⟨-, net, hnet, hid⟩, cs, hcs, c, hc, rfl⟩ := h
  refine List.mem_flatMap.mpr ⟨net, Array.mem_toList_iff.mpr hnet, ?_⟩
  rw [hid, hcs]
  exact List.mem_map_of_mem hc

namespace Repairer

variable {σ : Type} (rp : Repairer σ)

/-- The shortest connection at risk that has not been picked. -/
def shortest? (picked : List Ranked) (dm : Measurement) : Option Ranked :=
  ((Ranking.hold rp.placement rp.settings.hold.skewAxis dm.connections).toList.filter
    fun c => c.key ∉ picked.map Ranked.key).head?

/-- Repairs a connection and counts what comes of it. -/
def plainPick (ps : PlainSession σ) (c : Ranked) : PlainSession σ × RepairOutcome :=
  let (pg, out) := rp.repairOne c ps.state ps.routing
  ({ state := pg.state
     routing := pg.routing
     picked := ps.picked ++ [c]
     summary := ps.summary.count pg.rounds.length out }, out)

/-- The number of connections that have not been picked. -/
def unpickedCount (picked : List Ranked) : Nat :=
  rp.placement.keys.countP (· ∉ picked.map Ranked.key)

variable {rp} in
theorem shortest?_eq_some {picked : List Ranked} {r : Routing} {dm : Measurement} {c : Ranked}
    (hdm : (rp.placement.measure rp.settings r).outcome = .ok dm)
    (h : rp.shortest? picked dm = some c) :
    rp.placement.AtRisk rp.settings r c ∧ c.key ∉ picked.map Ranked.key := by
  have hmem := List.mem_filter.mp (List.mem_of_mem_head? h)
  exact ⟨(Placement.mem_hold_of_measure hdm).mp hmem.1, by simpa using hmem.2⟩

variable {rp} in
/-- A pick uses up a connection. -/
theorem unpickedCount_lt {picked : List Ranked} {r : Routing} {dm : Measurement} {c : Ranked}
    (hdm : (rp.placement.measure rp.settings r).outcome = .ok dm)
    (h : rp.shortest? picked dm = some c) :
    rp.unpickedCount (picked ++ [c]) < rp.unpickedCount picked := by
  obtain ⟨hrisk, hnew⟩ := shortest?_eq_some hdm h
  unfold unpickedCount
  rw [List.countP_eq_length_filter, List.countP_eq_length_filter]
  -- what is left after the pick is what was left before, less the pick itself
  have hsplit : rp.placement.keys.filter (· ∉ (picked ++ [c]).map Ranked.key) =
      (rp.placement.keys.filter (· ∉ picked.map Ranked.key)).filter (· ≠ c.key) := by
    rw [List.filter_filter]
    refine List.filter_congr fun k _ => ?_
    simp only [List.map_append, List.mem_append, List.map_cons, List.map_nil, List.mem_singleton,
      not_or, Bool.decide_and, Bool.and_comm, ne_eq]
  rw [hsplit, List.length_filter_lt_length_iff_exists]
  exact ⟨c.key, List.mem_filter.mpr ⟨hrisk.offers.mem_keys, by simpa using hnew⟩, by simp⟩

/-- Repairs what is left to be repaired, one measurement of the design after
the other. -/
def plainRun (ps : PlainSession σ) : PlainSession σ × SessionEnd :=
  match _hm : (rp.placement.measure rp.settings ps.routing).outcome with
  | .error e => (ps, .stopped e)
  | .ok dm =>
    match _hc : rp.shortest? ps.picked dm with
    | none => (ps, .settled)
    | some c =>
      if rp.threshold ≤ c.length then (ps, .settled)
      else if rp.settings.repair.pickLimit.any (· ≤ ps.picked.length) then (ps, .limitReached)
      else
        match _hp : rp.plainPick ps c with
        | (next, .stopped e) => (next, .stopped e)
        | (next, _) => plainRun next
termination_by rp.unpickedCount ps.picked
decreasing_by
  have hpicked : (rp.plainPick ps c).1.picked = ps.picked ++ [c] := rfl
  rw [_hp] at hpicked
  rw [hpicked]
  exact unpickedCount_lt _hm _hc

/-- A plain session, one pick unfolded. -/
theorem plainRun_eq (ps : PlainSession σ) :
    rp.plainRun ps =
      match (rp.placement.measure rp.settings ps.routing).outcome with
      | .error e => (ps, .stopped e)
      | .ok dm =>
        match rp.shortest? ps.picked dm with
        | none => (ps, .settled)
        | some c =>
          if rp.threshold ≤ c.length then (ps, .settled)
          else if rp.settings.repair.pickLimit.any (· ≤ ps.picked.length) then (ps, .limitReached)
          else
            match rp.plainPick ps c with
            | (next, .stopped e) => (next, .stopped e)
            | (next, _) => rp.plainRun next := by
  rw [plainRun]
  split
  · rename_i e he
    rw [he]
  · rename_i dm hdm
    rw [hdm]
    dsimp only
    split
    · rename_i hc
      rw [hc]
    · rename_i c hc
      rw [hc]
      dsimp only
      split
      · rfl
      · split
        · rfl
        · split
          · rename_i next e hp
            rw [hp]
          · rename_i next out hout hp
            rw [hp]
            cases out with
            | stopped e => exact absurd rfl (hout e)
            | repaired length => rfl
            | abandoned record => rfl

/-- Repairs the connections at risk of a routing, without a queue. -/
def plainRepair (state : σ) (r : Routing) : PlainSession σ × Except PassError SessionSummary :=
  let (ps, e) := rp.plainRun { state, routing := r }
  (ps, match e with
    | .settled => .ok ps.summary
    | .limitReached => .ok { ps.summary with limitReached := true }
    | .stopped e => .error e)

end Repairer

/-- The plain session that stands where a session stands. -/
def Session.plain {σ : Type} (s : Session σ) : PlainSession σ where
  state := s.state
  routing := s.routing
  picked := s.picks.map Pick.candidate
  summary := s.summary false

namespace Repairer

variable {σ : Type} {rp : Repairer σ} {s s' : Session σ} {c : Ranked} {rest : List Queued}

theorem Tracks.mem_unpicked_iff (h : rp.Tracks s)
    (hrisk : rp.placement.AtRisk rp.settings s.routing c) :
    c.key ∈ s.unpicked ↔ c.key ∉ (s.picks.map Pick.candidate).map Ranked.key := by
  rw [h.unpicked, and_iff_right hrisk.offers]
  simp

/-- **What a session picks next is the shortest connection that a plain one
finds.** -/
theorem Tracks.shortest?_eq (h : rp.Tracks s) {dm : Measurement}
    (hdm : (rp.placement.measure rp.settings s.routing).outcome = .ok dm) :
    rp.shortest? (s.picks.map Pick.candidate) dm = s.next?.map Prod.fst := by
  cases hnext : s.next? with
  | none =>
    unfold shortest?
    rw [Option.map_none, List.head?_eq_none_iff, List.filter_eq_nil_iff]
    intro c hc
    have hrisk := (Placement.mem_hold_of_measure hdm).mp hc
    have hpicked := (h.mem_unpicked_iff hrisk).not.mp (h.next?_eq_none hnext hrisk)
    simpa using hpicked
  | some x =>
    obtain ⟨c, rest⟩ := x
    obtain ⟨hrisk, hun, hleast⟩ := h.next?_eq_some hnext
    have hmem : c ∈
        (Ranking.hold rp.placement rp.settings.hold.skewAxis dm.connections).toList.filter fun c =>
          c.key ∉ (s.picks.map Pick.candidate).map Ranked.key :=
      List.mem_filter.mpr ⟨(Placement.mem_hold_of_measure hdm).mpr hrisk,
        by simpa using (h.mem_unpicked_iff hrisk).mp hun⟩
    have hsorted := (Ranking.pairwise_hold rp.placement rp.settings.hold.skewAxis
      dm.connections).filter fun c => c.key ∉ (s.picks.map Pick.candidate).map Ranked.key
    unfold shortest?
    generalize hwaiting : List.filter _ _ = waiting at hmem hsorted ⊢
    cases waiting with
    | nil => cases hmem
    | cons d ds =>
      have hd : rp.shortest? (s.picks.map Pick.candidate) dm = some d := by
        unfold shortest?
        rw [hwaiting, List.head?_cons]
      obtain ⟨hdrisk, hdnew⟩ := shortest?_eq_some hdm hd
      have hcd := hleast d hdrisk ((h.mem_unpicked_iff hdrisk).mpr hdnew)
      -- each is no longer than the other, so they are the same
      have hdc : d.notLonger c := by
        rcases List.mem_cons.mp hmem with rfl | hmem
        · exact hcd
        · exact (List.pairwise_cons.mp hsorted).1 c hmem
      rw [List.head?_cons, Option.map_some, Ranked.notLonger_antisymm _ _ hdc hcd]

/-- **A pick of a session is a pick of the plain one.** -/
theorem plainPick_plain {pg : Progress σ} {out : RepairOutcome} (hp : rp.Picked s c s' pg out) :
    rp.plainPick s.plain c = (s'.plain, out) := by
  have hsummary : s'.summary false = (s.summary false).count pg.rounds.length out := by
    unfold Session.summary SessionSummary.count Session.attempts
    rw [hp.picks]
    cases out <;> simp
  have hrepaired : rp.repairOne c s.plain.state s.plain.routing = (pg, out) := hp.repaired
  unfold plainPick
  rw [hrepaired]
  simp only [Session.plain, hp.state, hp.routing, hp.picks, hsummary, List.map_append,
    List.map_cons, List.map_nil]

/-- The plain session in the place of one that keeps track of the design. -/
theorem Tracks.plainRun_eq (h : rp.Tracks s) :
    rp.plainRun s.plain =
      match s.next? with
      | none => (s.plain, .settled)
      | some (c, _) =>
        if rp.threshold ≤ c.length then (s.plain, .settled)
        else if rp.isLimitUsed s then (s.plain, .limitReached)
        else
          match rp.plainPick s.plain c with
          | (next, .stopped e) => (next, .stopped e)
          | (next, _) => rp.plainRun next := by
  obtain ⟨dm, hdm⟩ := h.measured
  have hplain : (rp.placement.measure rp.settings s.plain.routing).outcome = .ok dm := hdm
  have hshort : rp.shortest? s.plain.picked dm = s.next?.map Prod.fst := h.shortest?_eq hdm
  have hpicked : s.plain.picked.length = s.picks.length := List.length_map _
  rw [Repairer.plainRun_eq, hplain]
  dsimp only
  rw [hshort, hpicked]
  cases s.next? <;> rfl

/-- **The plain session runs along** with one that keeps track of the
design. -/
theorem plainRun_plain (hconf : rp.router.Confined) (h : rp.Tracks s) :
    rp.plainRun s.plain = ((rp.run s).1.plain, (rp.run s).2) := by
  refine run_rule (I := fun s' => rp.Tracks s' ∧ rp.plainRun s.plain = rp.plainRun s'.plain)
    (E := fun x => rp.plainRun s.plain = (x.1.plain, x.2)) ?_ ?_ ?_ ?_ s ⟨h, rfl⟩
  · rintro s₁ c rest s₂ stop ⟨h₁, heq⟩ hnext hshort hunused hpick
    obtain ⟨pg, out, hp, hstop⟩ := pick_cases hpick
    rw [h₁.plainRun_eq, hnext] at heq
    simp only [if_neg (Nat.not_le.mpr hshort), hunused, Bool.false_eq_true, if_false,
      plainPick_plain hp] at heq
    rcases hstop with ⟨e, rfl, rfl⟩ | ⟨hgo, hstop⟩
    · exact heq
    · have hnextrun : rp.plainRun s.plain = rp.plainRun s₂.plain := by
        cases out with
        | stopped e => exact absurd rfl (hgo e)
        | repaired length => exact heq
        | abandoned record => exact heq
      rcases hstop with ⟨e, he, rfl⟩ | ⟨m, hm, rfl, -, -⟩
      · obtain ⟨dm, hdm⟩ := h₁.measured
        have hother : ∀ other, other ≠ c.net → s₂.routing.of other = s₁.routing.of other := by
          rw [hp.routing]
          exact repairOne_other hconf hp.repaired
        -- the plain session comes upon the failure when it measures the design
        have hfail : (rp.placement.measure rp.settings s₂.plain.routing).outcome = .error e :=
          Placement.measure_eq_error_of_other hdm hother (h₁.next?_eq_some hnext).1.1 he
        rw [hnextrun, Repairer.plainRun_eq, hfail]
      · exact ⟨h₁.of_pick hconf hnext hpick, hnextrun⟩
  · rintro s₁ ⟨h₁, heq⟩ hnext
    rw [heq, h₁.plainRun_eq, hnext]
  · rintro s₁ c rest ⟨h₁, heq⟩ hnext hlong
    rw [heq, h₁.plainRun_eq, hnext]
    simp only [if_pos hlong]
  · rintro s₁ c rest ⟨h₁, heq⟩ hnext hshort hused
    rw [heq, h₁.plainRun_eq, hnext]
    simp only [if_neg (Nat.not_le.mpr hshort), hused, if_true]

/-- **Repair with a queue is repair without one**: the same connections are
picked, at the same lengths and in the same order, and the routing and the
summary or the error are the same. -/
theorem repair_eq_plainRepair (hconf : rp.router.Confined) (state : σ) (r : Routing) :
    let result := rp.repair state r
    let plain := rp.plainRepair state r
    result.picks.map Pick.candidate = plain.1.picked ∧ result.routing = plain.1.routing ∧
      result.state = plain.1.state ∧ result.outcome = plain.2 := by
  intro result plain
  rcases hm : (rp.placement.measure rp.settings r).outcome with e | dm
  · have hrun : rp.plainRun { state, routing := r } = ({ state, routing := r }, .stopped e) := by
      rw [Repairer.plainRun_eq, hm]
    simp only [result, plain, plainRepair, hrun, repair, hm, List.map_nil, and_self]
  · have htracks := Tracks.start rp state hm (rp.placement.measure rp.settings r).events
    have hrun := plainRun_plain hconf htracks
    have hstart : (rp.start state r dm (rp.placement.measure rp.settings r).events).plain =
        { state, routing := r } := rfl
    rw [hstart] at hrun
    simp only [result, plain, plainRepair, hrun, repair, hm]
    refine ⟨rfl, rfl, rfl, ?_⟩
    cases (rp.run (rp.start state r dm (rp.placement.measure rp.settings r).events)).2 <;> rfl

/-- What plain repair makes of two sinks on their short ways. -/
def plainShortWays : PlainSession Unit × Except PassError SessionSummary :=
  (Placement.twoSinks.mazeRepairer {} 1000).plainRepair () Placement.shortWays

/-- Two sinks are repaired alike by the maze router, one after the other. -/
theorem repairedShortWays_eq_plainShortWays :
    plainShortWays.1.picked.length = 2 ∧
      Placement.repairedShortWays.picks.map Pick.candidate = plainShortWays.1.picked ∧
      Placement.repairedShortWays.routing = plainShortWays.1.routing ∧
      Placement.repairedShortWays.outcome = plainShortWays.2 := by
  have hconf : (Placement.twoSinks.mazeRepairer {} 1000).router.Confined := mazeRouter_confined 1000
  obtain ⟨hpicked, hrouting, -, houtcome⟩ := repair_eq_plainRepair hconf () Placement.shortWays
  refine ⟨?_, hpicked, hrouting, houtcome⟩
  rw [plainShortWays, ← hpicked, List.length_map, Repairer.repair_eq_insertionSort]
  decide +kernel

end Repairer

end HoldMargin
