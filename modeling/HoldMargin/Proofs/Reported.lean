import HoldMargin.Proofs.Warned
/-!
# What a review reports of sinks that are not reached

A review measures again and again, but only two of its measurements report to its
user: that for the first report, and the one that repair starts with. Both are
measurements of the same routing. So what the first report lists as not reached is
reported twice over, before anything is said of what repair has given up on
(`Placement.review_reports_twice`).
-/

namespace HoldMargin

open Pass

namespace Placement

variable {p : Placement} {s : Settings} {limit : Nat} {r : Routing} {reports : ReviewReports}

/-- **A review that was not stopped**, and the passes its reports come from. -/
structure Reviews (p : Placement) (s : Settings) (limit : Nat) (r : Routing)
    (reports : ReviewReports) (dm : Measurement) : Prop where
  measured : (p.measure s r).outcome = .ok dm
  before : reports.before = p.reportOn s dm (registerAll {} (p.measure s r).events)
  repaired : ((p.mazeRepairer s limit).repair () r).outcome = .ok reports.summary
  routing : (p.review s limit r).routing = ((p.mazeRepairer s limit).repair () r).routing
  /-- The last report counts all that was registered before it. -/
  after : (p.report s (p.review s limit r).routing (registerAll {}
    ((p.measure s r).events ++ ((p.mazeRepairer s limit).repair () r).events))).outcome =
      .ok reports.after
  findings : (p.review s limit r).findings =
    findingsOf (p.measure s r).events ++
      findingsOf ((p.mazeRepairer s limit).repair () r).events

theorem reviews_of_reports (h : (p.review s limit r).reports = some reports) :
    ∃ dm, p.Reviews s limit r reports dm := by
  unfold review at h
  dsimp only at h
  split at h
  · cases h
  rename_i first hfirst
  split at h
  · cases h
  rename_i summary hsummary
  split at h
  · cases h
  rename_i last hlast
  cases h
  have hreview : (p.review s limit r).routing = ((p.mazeRepairer s limit).repair () r).routing ∧
      (p.review s limit r).findings = findingsOf (p.measure s r).events ++
        findingsOf ((p.mazeRepairer s limit).repair () r).events := by
    simp only [review, hfirst, hsummary, hlast]
    exact ⟨rfl, rfl⟩
  cases hdm : (p.measure s r).outcome with
  | error e =>
    simp only [report, hdm] at hfirst
    cases hfirst
  | ok dm =>
    simp only [report, hdm] at hfirst
    cases hfirst
    exact ⟨dm, hdm, rfl, hsummary, hreview.1, hreview.1 ▸ hlast, hreview.2⟩

/-! ## Reports that a sink is not reached -/

theorem code_of_mem_warnings {dm : Measurement} {f : Finding} (h : f ∈ p.warnings dm) :
    f.code = .sinkNotReached := by
  simp only [warnings, warningsOf, List.mem_flatMap, List.mem_map] at h
  obtain ⟨m, -, c, -, rfl⟩ := h
  rfl

/-- What is reported of a record is something else. -/
theorem code_ne_of_mem_findings {a : Abandonment} {threshold : Nat} {f : Finding}
    (h : f ∈ a.findings threshold) : f.code ≠ .sinkNotReached := by
  unfold Abandonment.findings at h
  rcases List.mem_cons.mp h with rfl | h
  · show FindingCode.repairGivenUp ≠ .sinkNotReached
    decide
  · split at h
    · obtain rfl := List.mem_singleton.mp h
      show FindingCode.routeLost ≠ .sinkNotReached
      decide
    · cases h

/-- **What a review finds**: what the first measurement has to report, the same
again, and what there is to report of the records. -/
theorem Reviews.findings_eq {dm : Measurement} (h : p.Reviews s limit r reports dm) :
    (p.review s limit r).findings = p.warnings dm ++ p.warnings dm ++
      reports.summary.abandoned.flatMap (·.findings s.hold.minWirelength) := by
  have hrepaired := (Repairer.addsUp_of_repair h.repaired).findings
  have hfirst : findingsOf ((p.mazeRepairer s limit).placement.measure s r).events =
      p.warnings dm := findingsOf_measure h.measured
  rw [h.findings, hrepaired, findingsOf_measure h.measured, List.append_assoc]
  exact congrArg (_ ++ ·) (congrArg (· ++ _) hfirst)

end Placement

/-- What a review says of sinks that are not reached. -/
def Review.unreachedFindings (v : Review) : List Finding :=
  v.findings.filter (·.code = .sinkNotReached)

namespace Placement

variable {p : Placement} {s : Settings} {limit : Nat} {r : Routing} {reports : ReviewReports}

theorem Reviews.unreachedFindings_eq {dm : Measurement} (h : p.Reviews s limit r reports dm) :
    (p.review s limit r).unreachedFindings = p.warnings dm ++ p.warnings dm := by
  have hkept : (p.warnings dm).filter (·.code = .sinkNotReached) = p.warnings dm :=
    List.filter_eq_self.mpr fun f hf => decide_eq_true (code_of_mem_warnings hf)
  have hdropped : (reports.summary.abandoned.flatMap (·.findings s.hold.minWirelength)).filter
      (·.code = .sinkNotReached) = [] := by
    refine List.filter_eq_nil_iff.mpr fun f hf => ?_
    obtain ⟨a, -, hf⟩ := List.mem_flatMap.mp hf
    simpa using code_ne_of_mem_findings hf
  rw [Review.unreachedFindings, h.findings_eq, List.filter_append, List.filter_append, hkept,
    hdropped, List.append_nil]

/-- **A review says twice of each sink that it is not reached**: what the first report
lists is reported in its order, and then all of it once more. So every sink is
reported once only if there is none. -/
theorem review_reports_twice (h : (p.review s limit r).reports = some reports) :
    ∃ warnings, List.Forall₂ UnreachedSink.IsReportedBy reports.before.unreached warnings ∧
      (p.review s limit r).findings = warnings ++ warnings ++
        reports.summary.abandoned.flatMap (·.findings s.hold.minWirelength) ∧
      (p.review s limit r).unreachedFindings = warnings ++ warnings ∧
      (List.Forall₂ UnreachedSink.IsReportedBy reports.before.unreached
          (p.review s limit r).unreachedFindings ↔ reports.before.unreached = []) := by
  obtain ⟨dm, hdm⟩ := reviews_of_reports h
  have hbefore : reports.before.unreached = dm.unreached := by rw [hdm.before]; rfl
  have hwarnings := forall₂_warnings hdm.measured
  rw [hbefore, hdm.unreachedFindings_eq]
  refine ⟨p.warnings dm, hwarnings, hdm.findings_eq, rfl, fun htwice => ?_, fun hnone => ?_⟩
  · have hlength := hwarnings.length_eq
    have hlength' := htwice.length_eq
    rw [List.length_append] at hlength'
    exact List.length_eq_zero_iff.mp (by omega)
  · rw [hnone] at hwarnings ⊢
    rw [List.forall₂_nil_left_iff.mp hwarnings]
    exact .nil

/-! ### A sink without a route -/

/-- The first of two sinks routed on its short way, the second one not at all. -/
def firstShortWay : Routing := .sketch [0, 1, 4]

theorem unreached_firstShortWay :
    (twoSinks.review {} 1000 firstShortWay).reports.map (·.before.unreached) =
      some [⟨"n", "S1/B"⟩] := by
  unfold review
  simp only [Repairer.repair_eq_insertionSort]
  decide +kernel

/-- The review of the first short way has its reports, and the first of them lists the
second sink. -/
theorem exists_reports_firstShortWay :
    ∃ reports, (twoSinks.review {} 1000 firstShortWay).reports = some reports ∧
      reports.before.unreached = [⟨"n", "S1/B"⟩] := by
  simpa only [Option.map_eq_some_iff] using unreached_firstShortWay

theorem firstShortWay_reports_twice :
    ∃ reports, (twoSinks.review {} 1000 firstShortWay).reports = some reports ∧
      reports.before.unreached = [⟨"n", "S1/B"⟩] ∧
      ∃ warnings, List.Forall₂ UnreachedSink.IsReportedBy reports.before.unreached warnings ∧
        (twoSinks.review {} 1000 firstShortWay).unreachedFindings = warnings ++ warnings := by
  obtain ⟨reports, hreports, hunreached⟩ := exists_reports_firstShortWay
  obtain ⟨warnings, hwarnings, -, htwice, -⟩ := review_reports_twice hreports
  exact ⟨reports, hreports, hunreached, warnings, hwarnings, htwice⟩

/-- **The second sink is reported more than once.** -/
theorem firstShortWay_not_reported_once :
    ∃ reports, (twoSinks.review {} 1000 firstShortWay).reports = some reports ∧
      ¬ List.Forall₂ UnreachedSink.IsReportedBy reports.before.unreached
        (twoSinks.review {} 1000 firstShortWay).unreachedFindings := by
  obtain ⟨reports, hreports, hunreached⟩ := exists_reports_firstShortWay
  refine ⟨reports, hreports, fun honce => ?_⟩
  have htwo : (twoSinks.review {} 1000 firstShortWay).unreachedFindings.length = 2 := by
    unfold review
    simp only [Repairer.repair_eq_insertionSort]
    decide +kernel
  have hlength := honce.length_eq
  rw [hunreached, htwo] at hlength
  cases hlength

end Placement

end HoldMargin
