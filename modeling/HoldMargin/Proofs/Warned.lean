import HoldMargin.CommandLine.Run
import HoldMargin.Proofs.Accounted
/-!
# What makes a command fail

A pass reports what concerns one connection as a warning and goes on; only
what stops a pass is reported as an error. So the findings of passes that
came to their ends never make a command fail, and the finding of a pass that
did not always does (`Placement.hasErrors_review`).
-/

namespace HoldMargin

/-! ## Passes that only warn -/

namespace Pass

variable {α β : Type} {es es' : List Event}

/-- Whether all findings among events are warnings. -/
def OnlyWarns (events : List Event) : Prop := ∀ f ∈ findingsOf events, f.severity = .warning

theorem onlyWarns_of_findingsOf (h : findingsOf es = findingsOf es') (hes : OnlyWarns es') :
    OnlyWarns es := fun f hf => hes f (h ▸ hf)

theorem onlyWarns_nil : OnlyWarns [] := nofun

theorem onlyWarns_append (hes : OnlyWarns es) (hes' : OnlyWarns es') : OnlyWarns (es ++ es') := by
  intro f hf
  rw [findingsOf_append] at hf
  exact (List.mem_append.mp hf).elim (hes f) (hes' f)

/-- **A pass and then another** warn if both do. -/
theorem onlyWarns_bind {x : Pass α} {f : α → Pass β} (hx : OnlyWarns x.events)
    (hf : ∀ a, OnlyWarns (f a).events) : OnlyWarns (x >>= f).events := by
  intro g hg
  rcases mem_events_bind.mp (mem_findingsOf.mp hg) with hg | ⟨a, -, hg⟩
  · exact hx g (mem_findingsOf.mpr hg)
  · exact hf a g (mem_findingsOf.mpr hg)

theorem onlyWarns_mapM {f : α → Pass β} (hf : ∀ a, OnlyWarns (f a).events) (xs : List α) :
    OnlyWarns (xs.mapM f).events := by
  intro g hg
  obtain ⟨x, -, hg⟩ := exists_of_mem_events_mapM (mem_findingsOf.mp hg)
  exact hf x g (mem_findingsOf.mpr hg)

theorem onlyWarns_ofExcept (outcome : Except PassError α) :
    OnlyWarns (ofExcept outcome).events := onlyWarns_nil

theorem onlyWarns_register (e : End) (n : NodeId) : OnlyWarns (register e n).events := nofun

theorem onlyWarns_report {f : Finding} (h : f.severity = .warning) :
    OnlyWarns (report f).events := by
  intro g hg
  obtain rfl : g = f := List.mem_singleton.mp hg
  exact h

end Pass

open Pass

namespace Placement

variable (p : Placement)

theorem onlyWarns_connect (id : NetId) (net : Net) (source : PinId) (index : Nat) (sink : PinId) :
    OnlyWarns (p.connect id net source index sink).events := by
  refine onlyWarns_bind (onlyWarns_ofExcept _) fun driver => ?_
  refine onlyWarns_bind (onlyWarns_ofExcept _) fun ends => ?_
  cases ends with
  | none => exact onlyWarns_nil
  | some ends =>
    refine onlyWarns_bind (onlyWarns_register _ _) fun _ => ?_
    exact onlyWarns_bind (onlyWarns_register _ _) fun _ => onlyWarns_nil

theorem onlyWarns_connections (id : NetId) : OnlyWarns (p.connections id).events := by
  refine onlyWarns_bind (onlyWarns_ofExcept _) fun net => ?_
  split
  · exact onlyWarns_mapM (fun _ => p.onlyWarns_connect id net _ _ _) _
  · exact onlyWarns_nil

/-- A sink that is not reached is a warning. -/
theorem onlyWarns_measureConnection (net : String) (route : Route) (lengths : Lengths)
    (c : Connection) : OnlyWarns (p.measureConnection net route lengths c).events := by
  unfold measureConnection
  split
  · exact onlyWarns_nil
  · refine onlyWarns_bind (onlyWarns_ofExcept _) fun pinNode => ?_
    dsimp only
    split
    · refine onlyWarns_bind (onlyWarns_register _ _) fun _ => ?_
      split
      · exact onlyWarns_nil
      · exact onlyWarns_bind (onlyWarns_report rfl) fun _ => onlyWarns_nil
    · split
      · exact onlyWarns_nil
      · exact onlyWarns_bind (onlyWarns_report rfl) fun _ => onlyWarns_nil

theorem onlyWarns_measureNet (w : Weighting) (r : Routing) (id : NetId) :
    OnlyWarns (p.measureNet w r id).events := by
  refine onlyWarns_bind (p.onlyWarns_connections id) fun connections => ?_
  refine onlyWarns_bind (onlyWarns_ofExcept _) fun net => ?_
  refine onlyWarns_bind (onlyWarns_ofExcept _) fun route => ?_
  refine onlyWarns_bind (onlyWarns_ofExcept _) fun lengths => ?_
  refine onlyWarns_bind (onlyWarns_ofExcept _) fun usage => ?_
  exact onlyWarns_bind (onlyWarns_mapM (p.onlyWarns_measureConnection net.name route lengths) _)
    fun _ => onlyWarns_nil

/-- **Measuring a design only warns.** -/
theorem onlyWarns_measure (s : Settings) (r : Routing) : OnlyWarns (p.measure s r).events := by
  refine onlyWarns_bind (onlyWarns_mapM (fun net => ?_) _) fun _ => onlyWarns_nil
  refine onlyWarns_bind (onlyWarns_ofExcept _) fun analyzed => ?_
  split
  · exact onlyWarns_bind (p.onlyWarns_measureNet _ r net.id) fun _ => onlyWarns_nil
  · exact onlyWarns_nil

end Placement

theorem Abandonment.severity_of_mem_findings {a : Abandonment} {threshold : Nat} {f : Finding}
    (h : f ∈ a.findings threshold) : f.severity = .warning := by
  unfold findings at h
  rcases List.mem_cons.mp h with rfl | h
  · rfl
  · split at h
    · obtain rfl := List.mem_singleton.mp h
      rfl
    · cases h

namespace Repairer

variable {σ : Type} (rp : Repairer σ)

/-- What becomes of a pick is reported as a warning, if at all. -/
theorem onlyWarns_reportOutcome (out : RepairOutcome) : OnlyWarns (rp.reportOutcome out) := by
  cases out with
  | abandoned record =>
    intro f hf
    rw [reportOutcome, findingsOf_map_finding] at hf
    exact Abandonment.severity_of_mem_findings hf
  | _ => exact onlyWarns_nil

/-- **Repair only warns**, also when it is stopped. -/
theorem onlyWarns_repair (state : σ) (r : Routing) : OnlyWarns (rp.repair state r).events := by
  have hmeasure := rp.placement.onlyWarns_measure rp.settings r
  unfold repair
  dsimp only
  split
  · exact hmeasure
  · rename_i m _
    refine run_rule (I := fun s => OnlyWarns s.events)
      (E := fun last => OnlyWarns (last.1.finish last.2).events) ?_ (fun _ hs _ => hs)
      (fun _ _ _ hs _ _ => hs) (fun _ _ _ hs _ _ _ => hs) _ hmeasure
    intro s c rest s' stop hs _ hshort _ h
    obtain ⟨pg, out, hp, -⟩ := pick_cases h
    have hsilent := (concludes_repairOne hshort hp.repaired).silent
    have hs' : OnlyWarns s'.events := by
      refine onlyWarns_of_findingsOf ?_ (onlyWarns_append hs (rp.onlyWarns_reportOutcome out))
      rw [findingsOf_pick h hp.repaired, hsilent, List.append_nil, findingsOf_append]
    cases stop with
    | none => exact hs'
    | some e => exact hs'

end Repairer

/-! ## Logs with errors -/

namespace FindingLog

theorem hasErrors_addAll (log : FindingLog) (fs : List Finding) :
    (log.addAll fs).hasErrors = (log.hasErrors || fs.any fun f => f.severity = .error) := by
  induction fs generalizing log with
  | nil => simp [addAll]
  | cons f fs ih =>
    have hcons : log.addAll (f :: fs) = (log.add f).addAll fs := rfl
    have hadd : (log.add f).hasErrors = (log.hasErrors || decide (f.severity = .error)) := by
      unfold add hasErrors
      cases f.severity <;> simp
    rw [hcons, ih, hadd, List.any_cons, Bool.or_assoc]

end FindingLog

/-! ## Reviews -/

/-- **A pass of a review that stops**: the first report, the repair, or the report
on what the repair has left. -/
inductive Placement.Stops (p : Placement) (s : Settings) (limit : Nat) (r : Routing)
    (e : PassError) : Prop where
  | before (h : (p.report s r {}).outcome = .error e)
  | repair (h : ((p.mazeRepairer s limit).repair () r).outcome = .error e)
  | after (h : (p.report s ((p.mazeRepairer s limit).repair () r).routing {}).outcome = .error e)

/-- Whether a report is made does not depend on what was registered before. -/
theorem Placement.report_eq_error {p : Placement} {s : Settings} {r : Routing} {es : Entries}
    {e : PassError} (h : (p.report s r es).outcome = .error e) (es' : Entries) :
    (p.report s r es').outcome = .error e := by
  unfold report at h ⊢
  dsimp only at h ⊢
  cases hm : (p.measure s r).outcome with
  | ok m =>
    rw [hm] at h
    cases h
  | error e' =>
    rw [hm] at h
    exact h

/-- **A review has its reports exactly if no pass stopped**, and then its routing is
the repaired one. -/
theorem Placement.review_cases (p : Placement) (s : Settings) (limit : Nat) (r : Routing) :
    ((p.review s limit r).reports = none ∧ ∃ e, p.Stops s limit r e) ∨
      ((∃ reports, (p.review s limit r).reports = some reports) ∧ (∀ e, ¬ p.Stops s limit r e) ∧
        (p.review s limit r).routing = ((p.mazeRepairer s limit).repair () r).routing) := by
  unfold review
  dsimp only
  split
  · rename_i e he
    exact .inl ⟨rfl, e, .before he⟩
  rename_i first hfirst
  split
  · rename_i e he
    exact .inl ⟨rfl, e, .repair he⟩
  rename_i summary hsummary
  split
  · rename_i e he
    exact .inl ⟨rfl, e, .after (report_eq_error he {})⟩
  · rename_i last hlast
    refine .inr ⟨⟨_, rfl⟩, fun e hstops => ?_, rfl⟩
    rcases hstops with he | he | he
    · have hno := hfirst.symm.trans he
      cases hno
    · have hno := hsummary.symm.trans he
      cases hno
    · have hno := hlast.symm.trans (report_eq_error he _)
      cases hno

/-- **A review has an error exactly if it was stopped.** -/
theorem Placement.hasErrors_review (p : Placement) (s : Settings) (limit : Nat) (r : Routing) :
    (FindingLog.addAll {} (p.review s limit r).findings).hasErrors =
      (p.review s limit r).reports.isNone := by
  have hbefore := p.onlyWarns_measure s r
  have hrepair := (p.mazeRepairer s limit).onlyWarns_repair () r
  have herror : ∀ (fs : List Finding) (e : PassError),
      (FindingLog.addAll {} (fs ++ [e.toFinding])).hasErrors = true := by
    intro fs e
    have he : e.toFinding.severity = .error := rfl
    simp [FindingLog.hasErrors_addAll, he]
  have hwarn : ∀ {es : List Event}, OnlyWarns es →
      (FindingLog.addAll {} (findingsOf es)).hasErrors = false := by
    intro es hes
    have hnone : (findingsOf es).any (fun f => f.severity = .error) = false := by
      refine List.any_eq_false.mpr fun f hf => ?_
      simp [hes f hf]
    rw [FindingLog.hasErrors_addAll, hnone]
    rfl
  unfold review
  dsimp only
  split
  · exact herror _ _
  split
  · exact herror _ _
  split
  · exact herror _ _
  · rw [← findingsOf_append]
    exact hwarn (onlyWarns_append hbefore hrepair)

end HoldMargin
