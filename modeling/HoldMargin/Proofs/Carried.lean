import HoldMargin.Proofs.Climbing
import HoldMargin.Proofs.Reported
/-!
# What the last report of a review counts

A review keeps one register of fabric nodes, from its first report to its last. So
its last report is the one that is made of the repaired routing alone, except for
the counts of the register: a node that a sink was fed through once is counted to
the end, also when no route comes through it any more
(`Placement.after_eq_fresh_iff`).

Nodes that are registered for drivers do not depend on routes, and repair only
measures nets that the first report has measured, so of these the last report
counts no more than there are.
-/

namespace HoldMargin

open Pass

/-! ## Registers -/

namespace Entries

/-- The nodes that are registered for an end. -/
def nodesAt (es : Entries) : End → NodeSet
  | .driver => es.drivers
  | .sink => es.sinks

theorem mem_nodesAt_register {es : Entries} {e e' : End} {n n' : NodeId} :
    n ∈ (es.register e' n').nodesAt e ↔ n ∈ es.nodesAt e ∨ e = e' ∧ n = n' := by
  cases e <;> cases e' <;> simp [register, nodesAt, or_comm]

/-- **What is registered after some events** was registered before or is among
them. -/
theorem mem_nodesAt_registerAll {es : Entries} {events : List Event} {e : End} {n : NodeId} :
    n ∈ (registerAll es events).nodesAt e ↔ n ∈ es.nodesAt e ∨ .entry e n ∈ events := by
  induction events generalizing es with
  | nil => simp [registerAll]
  | cons event events ih =>
    rw [List.mem_cons]
    cases event with
    | entry e' n' =>
      have hstep : registerAll es (.entry e' n' :: events) =
        registerAll (es.register e' n') events := rfl
      rw [hstep, ih, mem_nodesAt_register, Event.entry.injEq, or_assoc]
    | finding f =>
      have hstep : registerAll es (.finding f :: events) = registerAll es events := rfl
      rw [hstep, ih]
      simp

/-- From nothing, what is registered is among the events. -/
theorem mem_nodesAt_registered {events : List Event} {e : End} {n : NodeId} :
    n ∈ (registerAll {} events).nodesAt e ↔ .entry e n ∈ events := by
  rw [mem_nodesAt_registerAll]
  exact or_iff_right (by cases e <;> exact IdSet.not_mem_empty)

theorem nodesAt_registered_append_right (earlier later : List Event) (e : End) :
    (registerAll {} later).nodesAt e ⊆ (registerAll {} (earlier ++ later)).nodesAt e := by
  refine IdSet.subset_iff.mpr fun n hn => ?_
  rw [mem_nodesAt_registered] at hn ⊢
  exact List.mem_append_right _ hn

variable {es es' : Entries}

/-- A register with fewer nodes counts fewer. -/
theorem counts_le (h : ∀ e, es.nodesAt e ⊆ es'.nodesAt e) :
    es.counts.total ≤ es'.counts.total ∧ es.counts.sinks ≤ es'.counts.sinks := by
  refine ⟨IdSet.size_le_of_subset (IdSet.subset_iff.mpr fun n hn => ?_),
    IdSet.size_le_of_subset (h .sink)⟩
  simp only [IdSet.mem_union] at hn ⊢
  exact hn.imp (IdSet.mem_of_subset (h .driver)) (IdSet.mem_of_subset (h .sink))

/-- **A register with fewer nodes counts the same** only if it is the same. -/
theorem counts_eq_iff (h : ∀ e, es.nodesAt e ⊆ es'.nodesAt e)
    (hdrivers : es'.drivers = es.drivers) :
    es'.counts = es.counts ↔ es'.nodesAt .sink ⊆ es.nodesAt .sink := by
  constructor
  · intro hcounts
    by_contra hnot
    have hlt := IdSet.size_lt_of_ssubset ⟨h .sink, hnot⟩
    exact Nat.ne_of_gt hlt (congrArg EntryTally.sinks hcounts)
  · intro hback
    have hsinks : es'.sinks = es.sinks :=
      IdSet.ext fun n => ⟨IdSet.mem_of_subset hback, IdSet.mem_of_subset (h .sink)⟩
    unfold counts
    rw [hdrivers, hsinks]

end Entries

/-! ## What repair registers -/

namespace Repairer

variable {σ : Type} {rp : Repairer σ} {c : Ranked} {kept : NodeSet} {pg pg' : Progress σ}
  {ev : Event} {n : NodeId}

/-- **A round only measures the net** of the connection. -/
theorem mem_events_round {res : RoundResult} (h : rp.round c kept pg = (pg', res))
    (hev : ev ∈ pg'.events) : ev ∈ pg.events ∨
      ∃ r, ev ∈ (rp.placement.measureNet rp.settings.weighting r c.net).events := by
  unfold round at h
  split at h
  · cases h
    exact .inl hev
  · dsimp only at h
    split at h
    · cases h
      exact .inl hev
    · cases h
      exact .inl hev
    · split at h <;> cases h <;>
        exact (List.mem_append.mp hev).imp_right fun hev => ⟨_, List.mem_of_mem_filter hev⟩

theorem mem_events_repairOne {state : σ} {r : Routing} {out : RepairOutcome}
    (h : rp.repairOne c state r = (pg, out)) (hev : ev ∈ pg.events) :
    ∃ r, ev ∈ (rp.placement.measureNet rp.settings.weighting r c.net).events := by
  rcases repairOne_cases h with ⟨e, -, rfl, -⟩ | ⟨kept, -, h⟩
  · cases hev
  -- of whatever a progress has left
  let P : Progress σ → Prop := fun pg => ∀ ev ∈ pg.events,
    ∃ r, ev ∈ (rp.placement.measureNet rp.settings.weighting r c.net).events
  have hround : ∀ {pg pg' res}, P pg → rp.round c kept pg = (pg', res) → P pg' :=
    fun hpg hr ev hev => (mem_events_round hr hev).elim (hpg ev) id
  have hgive : ∀ {pg length reason}, P pg → P (rp.giveUp c r pg length reason).1 := by
    intro pg length reason hpg
    show ∀ ev ∈ _, _
    rwa [events_giveUp]
  have hdone : P (rp.rounds c kept r { state, routing := r }
      (rp.settings.repair.maxAttempts - 1)).1 := by
    refine rounds_rule (P := P) (Q := fun done => P done.1) ?_ ?_ ?_ ?_ ?_ _
      (List.forall_mem_nil _) _
    · exact fun pg pg' e hpg hr => hround hpg hr
    · exact fun pg pg' hpg hr => hgive (hround hpg hr)
    · exact fun pg pg' grew hpg hr => hgive (hround hpg hr)
    · exact fun pg pg' length grew hpg hr _ => hround hpg hr
    · exact fun pg pg' length grew hpg hr _ => ⟨hround hpg hr, fun _ _ => hgive (hround hpg hr)⟩
  rw [h] at hdone
  exact hdone ev hev

theorem mem_events_requeue {s : Session σ} {net : NetId} (hev : ev ∈ (rp.requeue s net).1.events) :
    ev ∈ s.events ∨
      ev ∈ (rp.placement.measureNet rp.settings.weighting s.routing net).events := by
  have hevents : (rp.requeue s net).1.events = s.events ++ Pass.silent
      (rp.placement.measureNet rp.settings.weighting s.routing net).events := by
    unfold requeue
    dsimp only
    split <;> rfl
  rw [hevents] at hev
  exact (List.mem_append.mp hev).imp_right List.mem_of_mem_filter

/-- **A pick only measures the net** of the connection, and reports. -/
theorem mem_events_pick {s s' : Session σ} {rest : List Queued} {stop : Option PassError}
    (h : rp.pick s c rest = (s', stop)) (hev : ev ∈ s'.events) : ev ∈ s.events ∨
      (∃ f, ev = .finding f) ∨
      ∃ r, ev ∈ (rp.placement.measureNet rp.settings.weighting r c.net).events := by
  generalize hrep : rp.repairOne c s.state s.routing = rep
  obtain ⟨pg, out⟩ := rep
  have hbefore : ev ∈ s.events ++ pg.events ++ rp.reportOutcome out → ev ∈ s.events ∨
      (∃ f, ev = .finding f) ∨
      ∃ r, ev ∈ (rp.placement.measureNet rp.settings.weighting r c.net).events := by
    intro hev
    rcases List.mem_append.mp hev with hev | hev
    · exact (List.mem_append.mp hev).imp_right fun hev => .inr (mem_events_repairOne hrep hev)
    · cases out with
      | abandoned a =>
        obtain ⟨f, -, rfl⟩ := List.mem_map.mp hev
        exact .inr (.inl ⟨f, rfl⟩)
      | _ => cases hev
  obtain rfl : s' = (rp.pick s c rest).1 := by rw [h]
  rw [pick, hrep] at hev
  cases out with
  | stopped e => exact hbefore hev
  | _ => exact (mem_events_requeue hev).elim hbefore fun hev => .inr (.inr ⟨_, hev⟩)

/-- **What repair registers for drivers** was registered when it started. -/
theorem driverEntry_mem_repair {state : σ} {r : Routing} {summary : SessionSummary}
    (h : (rp.repair state r).outcome = .ok summary)
    (hn : .entry .driver n ∈ (rp.repair state r).events) :
    .entry .driver n ∈ (rp.placement.measure rp.settings r).events := by
  rcases repair_cases rp state r with ⟨e, -, -, -, he⟩ | ⟨dm, hdm, hlast⟩
  · rw [he] at h
    cases h
  rw [hlast] at h hn
  -- only nets that take part are picked, so that all they register is there already
  refine run_rule
    (I := fun s => rp.Accounts r (findingsOf (rp.placement.measure rp.settings r).events) s ∧
      ∀ n, .entry .driver n ∈ s.events →
        .entry .driver n ∈ (rp.placement.measure rp.settings r).events)
    (E := fun last => ∀ summary, (last.1.finish last.2).outcome = .ok summary →
      ∀ n, .entry .driver n ∈ last.1.events →
        .entry .driver n ∈ (rp.placement.measure rp.settings r).events)
    ?_ (fun _ hs _ _ _ => hs.2) (fun _ _ _ hs _ _ _ _ => hs.2) (fun _ _ _ hs _ _ _ _ _ => hs.2)
    _ ⟨Accounts.start hdm _, fun _ hn => hn⟩ summary h n hn
  rintro s c rest s' stop ⟨hs, hentries⟩ hnext hshort hused hpick
  cases stop with
  | some e => exact fun summary hno => nomatch hno
  | none =>
    refine ⟨hs.of_pick hnext hshort hused hpick, fun n hn => ?_⟩
    rcases mem_events_pick hpick hn with hn | ⟨f, hno⟩ | ⟨r', hn⟩
    · exact hentries n hn
    · cases hno
    · obtain ⟨hrisk, -, -⟩ := hs.tracks.next?_eq_some hnext
      exact (Placement.driverEntry_mem_measure_iff hdm).mpr
        ⟨c.net, hrisk.1, Placement.driverEntry_mem_measureNet_iff.mp hn⟩

end Repairer

/-! ## The last report -/

namespace Placement

variable {p : Placement} {s : Settings} {limit : Nat} {r : Routing} {es : Entries}
  {reports : ReviewReports}

theorem report_eq_ok {report : Report} :
    (p.report s r es).outcome = .ok report ↔ ∃ dm, (p.measure s r).outcome = .ok dm ∧
      report = p.reportOn s dm (registerAll es (p.measure s r).events) := by
  unfold Placement.report
  rw [map_eq_ok]
  exact exists_congr fun dm => and_congr_right fun _ => eq_comm

/-- Reports on one measurement differ by the counts of their registers only. -/
theorem reportOn_eq_iff {dm : Measurement} {es' : Entries} :
    p.reportOn s dm es = p.reportOn s dm es' ↔ es.counts = es'.counts :=
  ⟨congrArg Report.entries, fun h => by unfold reportOn; rw [h]⟩

/-- **The last report is that of the repaired routing**, but for what its register was
given before. -/
theorem Reviews.after_eq {dm : Measurement} (h : p.Reviews s limit r reports dm) :
    ∃ dm', (p.measure s (p.review s limit r).routing).outcome = .ok dm' ∧
      reports.after = p.reportOn s dm' (registerAll {}
        ((p.measure s r).events ++ ((p.mazeRepairer s limit).repair () r).events ++
          (p.measure s (p.review s limit r).routing).events)) := by
  obtain ⟨dm', hdm', hafter⟩ := report_eq_ok.mp h.after
  refine ⟨dm', hdm', ?_⟩
  rw [hafter]
  unfold registerAll
  rw [List.foldl_append (l := _ ++ _)]

/-- **Nothing was registered for drivers** before the repaired routing was measured that
measuring it does not register. -/
theorem Reviews.drivers_eq {dm dm' : Measurement} (h : p.Reviews s limit r reports dm)
    (hdm' : (p.measure s (p.review s limit r).routing).outcome = .ok dm') :
    (registerAll {} ((p.measure s r).events ++ ((p.mazeRepairer s limit).repair () r).events ++
        (p.measure s (p.review s limit r).routing).events)).drivers =
      (registerAll {} (p.measure s (p.review s limit r).routing).events).drivers := by
  have hfirst : ∀ n, .entry .driver n ∈ (p.measure s r).events →
      .entry .driver n ∈ (p.measure s (p.review s limit r).routing).events := by
    intro n hn
    rw [driverEntry_mem_measure_iff hdm']
    exact (driverEntry_mem_measure_iff h.measured).mp hn
  refine IdSet.ext fun n =>
    ⟨fun hn => ?_, IdSet.mem_of_subset (Entries.nodesAt_registered_append_right _ _ .driver)⟩
  refine (Entries.mem_nodesAt_registered (e := .driver)).mpr ?_
  rcases List.mem_append.mp ((Entries.mem_nodesAt_registered (e := .driver)).mp hn) with hn | hn
  · rcases List.mem_append.mp hn with hn | hn
    · exact hfirst n hn
    · have hmeasured := Repairer.driverEntry_mem_repair h.repaired hn
      exact hfirst n hmeasured
  · exact hn

/-- **The last report of a review against a fresh one** of the repaired routing. A fresh
report can be made, and the last report says the same but for what it counts: every node
that was registered since the review began. These are the same nodes for drivers, and for
sinks also those they were fed through before. So both reports agree exactly if whatever
a sink was fed through is still what a sink is fed through. -/
theorem after_eq_fresh_iff (h : (p.review s limit r).reports = some reports) :
    ∃ fresh, (p.report s (p.review s limit r).routing {}).outcome = .ok fresh ∧
      reports.after = { fresh with entries := reports.after.entries } ∧
      reports.after.entries = (registerAll {}
        ((p.report s r {}).events ++ ((p.mazeRepairer s limit).repair () r).events ++
          (p.report s (p.review s limit r).routing {}).events)).counts ∧
      reports.after.entries.drivers = fresh.entries.drivers ∧
      fresh.entries.sinks ≤ reports.after.entries.sinks ∧
      fresh.entries.total ≤ reports.after.entries.total ∧
      (reports.after = fresh ↔ ∀ n, .entry .sink n ∈
          (p.report s r {}).events ++ ((p.mazeRepairer s limit).repair () r).events →
        .entry .sink n ∈ (p.report s (p.review s limit r).routing {}).events) := by
  obtain ⟨dm, hreviews⟩ := reviews_of_reports h
  obtain ⟨dm', hdm', hafter⟩ := hreviews.after_eq
  have hdrivers := hreviews.drivers_eq hdm'
  set earlier := (p.measure s r).events ++ ((p.mazeRepairer s limit).repair () r).events
  set later := (p.measure s (p.review s limit r).routing).events
  have hwithin := Entries.nodesAt_registered_append_right earlier later
  rw [hafter]
  refine ⟨p.reportOn s dm' (registerAll {} later), report_eq_ok.mpr ⟨dm', hdm', rfl⟩, rfl, rfl,
    congrArg IdSet.size hdrivers, (Entries.counts_le hwithin).2, (Entries.counts_le hwithin).1, ?_⟩
  rw [reportOn_eq_iff, Entries.counts_eq_iff hwithin hdrivers]
  constructor
  · intro hback n hn
    have hboth := Entries.mem_nodesAt_registered.mpr (List.mem_append_left later hn)
    exact Entries.mem_nodesAt_registered.mp (IdSet.mem_of_subset hback hboth)
  · intro hstill
    refine IdSet.subset_iff.mpr fun n hn => ?_
    have hboth := List.mem_append.mp (Entries.mem_nodesAt_registered.mp hn)
    exact Entries.mem_nodesAt_registered.mpr (hboth.elim (hstill n) id)

/-! ### A sink with two feeds -/

/-- A sink that may be fed through either of two nodes. The device projects it onto the one
that only the long way leads to. -/
def twoFeeds : Placement :=
  sketch [⟨.sitePin, none⟩, ⟨.output, none⟩, ⟨.long, none⟩, ⟨.pinFeed, none⟩, ⟨.sitePin, none⟩,
      ⟨.single, none⟩, ⟨.pinFeed, none⟩]
    [(0, 1), (1, 2), (2, 3), (3, 4), (1, 5), (5, 6), (6, 4)] [("A", 4)]

/-- The sink routed on its short way, through the other feed. -/
def throughOtherFeed : Routing := .sketch [0, 4, 5, 6]

theorem entries_throughOtherFeed :
    (twoFeeds.review {} 1000 throughOtherFeed).reports.map (·.after.entries) =
      some ⟨3, 1, 2⟩ := by
  unfold review
  simp only [Repairer.repair_eq_insertionSort]
  decide +kernel

/-- Repair leads the sink through the feed that it projects onto, but the last report still
counts the other one. -/
theorem throughOtherFeed_after :
    ∃ reports fresh, (twoFeeds.review {} 1000 throughOtherFeed).reports = some reports ∧
      (twoFeeds.report {} (twoFeeds.review {} 1000 throughOtherFeed).routing {}).outcome =
        .ok fresh ∧
      reports.after = { fresh with entries := ⟨3, 1, 2⟩ } := by
  obtain ⟨reports, hreports, hentries⟩ := Option.map_eq_some_iff.mp entries_throughOtherFeed
  obtain ⟨fresh, hfresh, hafter, -⟩ := after_eq_fresh_iff hreports
  exact ⟨reports, fresh, hreports, hfresh, hentries ▸ hafter⟩

/-- **A fresh report counts fewer nodes.** -/
theorem throughOtherFeed_after_ne_fresh :
    twoFeeds.device.Ready ∧
      ∃ reports fresh, (twoFeeds.review {} 1000 throughOtherFeed).reports = some reports ∧
        (twoFeeds.report {} (twoFeeds.review {} 1000 throughOtherFeed).routing {}).outcome =
          .ok fresh ∧
        reports.after ≠ fresh := by
  refine ⟨Device.ready_reindex (by decide +kernel), ?_⟩
  obtain ⟨reports, hreports, hentries⟩ := Option.map_eq_some_iff.mp entries_throughOtherFeed
  have hfewer : (twoFeeds.report {} (twoFeeds.review {} 1000 throughOtherFeed).routing
      {}).outcome.map Report.entries = .ok ⟨2, 1, 1⟩ := by
    unfold review
    simp only [Repairer.repair_eq_insertionSort]
    decide +kernel
  cases hfresh : (twoFeeds.report {} (twoFeeds.review {} 1000 throughOtherFeed).routing
      {}).outcome with
  | error e =>
    rw [hfresh] at hfewer
    cases hfewer
  | ok fresh =>
    refine ⟨reports, fresh, hreports, rfl, fun heq => ?_⟩
    rw [hfresh] at hfewer
    have hcounts : fresh.entries = ⟨2, 1, 1⟩ := Except.ok.inj hfewer
    rw [← heq, hentries] at hcounts
    cases hcounts

end Placement

end HoldMargin
