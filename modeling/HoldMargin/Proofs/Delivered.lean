import HoldMargin.Proofs.Saved
import HoldMargin.Proofs.Warned
/-!
# What repair delivers

A command that repairs a snapshot either refuses to and leaves all files as
they are, or writes one file, and that file holds the snapshot it has read
with the repaired routing.

Three things carry this. Reading a file that has just been written gives what
was written (`FileTree.read_write`), since a file never stands where a path
goes through. A snapshot that was read is written and read again without loss
(`Snapshot.ofText_of_indexed`). And repair touches no net that none of its picks
is of (`Repairer.routing_of_unpicked`).
-/

namespace HoldMargin

/-! ## Nets without a pick -/

namespace Repairer

variable {σ : Type} {rp : Repairer σ}

/-- **A net without a pick keeps its routing**, also if the session is stopped, if
the router leaves other nets alone. -/
theorem routing_of_unpicked (hconf : rp.router.Confined) (state : σ) (r : Routing) {net : NetId}
    (h : ∀ pick ∈ (rp.repair state r).picks, pick.candidate.net ≠ net) :
    (rp.repair state r).routing.of net = r.of net := by
  rcases repair_cases rp state r with ⟨e, -, hrouting, -, -⟩ | ⟨m, -, hlast⟩
  · rw [hrouting]
  rw [hlast] at h ⊢
  refine run_rule
    (I := fun s => (∀ pick ∈ s.picks, pick.candidate.net ≠ net) → s.routing.of net = r.of net)
    (E := fun last => (∀ pick ∈ (last.1.finish last.2).picks, pick.candidate.net ≠ net) →
      (last.1.finish last.2).routing.of net = r.of net) ?_ (fun _ hs _ => hs)
    (fun _ _ _ hs _ _ => hs) (fun _ _ _ hs _ _ _ => hs) _ (fun _ => rfl) h
  intro s c rest s' stop hs _ _ _ hpick
  obtain ⟨pg, out, hp, -⟩ := pick_cases hpick
  have hs' : (∀ pick ∈ s'.picks, pick.candidate.net ≠ net) → s'.routing.of net = r.of net := by
    intro hnone
    have hne : net ≠ c.net := (hnone _ hp.mem_picks).symm
    rw [hp.routing, repairOne_other hconf hp.repaired net hne]
    refine hs fun pick hmem => hnone pick ?_
    rw [hp.picks]
    exact List.mem_append_left _ hmem
  cases stop with
  | none => exact hs'
  | some e => exact hs'

end Repairer

/-! ## Snapshots that were read -/

namespace Snapshot

/-- **A snapshot as reading leaves it**: its device is valid, and all is indexed. -/
structure Indexed (s : Snapshot) : Prop where
  device : s.device.reindex = s.device
  valid : s.device.validate = .ok ()
  netlist : s.design.netlist.reindex = s.design.netlist

theorem indexed_of_ofText {text : String} {s : Snapshot} (h : ofText text = .ok s) :
    s.Indexed := by
  unfold ofText at h
  split at h
  · cases h
  · dsimp only at h
    split at h
    · cases h
    · rename_i hvalid
      cases h
      exact ⟨rfl, hvalid, rfl⟩

/-- The snapshot with another routing. -/
def withRouting (s : Snapshot) (routing : Routing) : Snapshot :=
  { s with design := { s.design with routing } }

theorem Indexed.withRouting {s : Snapshot} (h : s.Indexed) (routing : Routing) :
    (s.withRouting routing).Indexed := ⟨h.device, h.valid, h.netlist⟩

/-- **A snapshot is saved and read again** with its indices. -/
theorem ofText_of_indexed {s : Snapshot} (h : s.Indexed) :
    ofText s.text = .ok { device := s.device, design := s.design.written.reindex } := by
  have hvalid : s.written.device.reindex.validate = .ok () := h.valid
  have hdevice : s.written.device.reindex = s.device := h.device
  rw [ofText, s.read_text]
  dsimp only
  rw [hvalid, hdevice]
  rfl

end Snapshot

/-! ## Files -/

namespace CommandLine

namespace FileTree

variable {t t' : FileTree} {path text : String} {place : Place} {e : FileEntry}

/-- **What writing takes**: a path that leads to a place where there is no directory,
and that does not say that there is one. -/
theorem write_eq_ok : t.write path text = .ok t' ↔
    Path.namesDirectory path = false ∧ ∃ place, t.locate path = .ok place ∧
      t.get? place ≠ some .directory ∧ t' = t.put place (.file text) := by
  constructor
  · intro h
    obtain ⟨dir, -, h⟩ := bind_eq_ok.mp h
    split at h
    · cases h
    · rename_i hname
      obtain ⟨place, hplace, h⟩ := bind_eq_ok.mp h
      unfold putFile at h
      split at h
      · cases h
      · rename_i hdir
        cases h
        exact ⟨Bool.eq_false_iff.mpr hname, place, hplace, hdir, rfl⟩
  · rintro ⟨hname, place, hplace, hdir, rfl⟩
    obtain ⟨dir, happroach, -⟩ := bind_eq_ok.mp hplace
    refine bind_eq_ok.mpr ⟨dir, happroach, ?_⟩
    rw [hname]
    refine bind_eq_ok.mpr ⟨place, hplace, ?_⟩
    unfold putFile
    split
    · rename_i hno
      exact absurd hno hdir
    · rfl

/-- A directory is entered as before when a file is put where there was none. -/
theorem enter_put (h : t.get? place ≠ some .directory) {dir next : Place} {name : String}
    (henter : t.enter dir name = .ok next) : (t.put place e).enter dir name = .ok next := by
  have hroot : place ≠ [] := by
    rintro rfl
    exact h rfl
  obtain ⟨found, hstep, hfound⟩ := bind_eq_ok.mp henter
  refine bind_eq_ok.mpr ⟨found, hstep, ?_⟩
  have hne : found ≠ place := by
    rintro rfl
    split at hfound
    · rename_i hdir
      exact h hdir
    all_goals cases hfound
  rw [get?_put t place found e hroot, if_neg hne]
  exact hfound

/-- A path leads to the same place as before. -/
theorem locate_put (h : t.get? place ≠ some .directory) {found : Place}
    (hlocate : t.locate path = .ok found) : (t.put place e).locate path = .ok found := by
  have hfold : ∀ (names : List String) (dir last : Place), names.foldlM t.enter dir = .ok last →
      names.foldlM (t.put place e).enter dir = .ok last := by
    intro names
    induction names with
    | nil => exact fun _ _ hlast => hlast
    | cons name names ih =>
      intro dir last hlast
      rw [List.foldlM_cons] at hlast ⊢
      obtain ⟨next, hnext, hlast⟩ := bind_eq_ok.mp hlast
      exact bind_eq_ok.mpr ⟨next, enter_put h hnext, ih next last hlast⟩
  obtain ⟨dir, hdir, hfound⟩ := bind_eq_ok.mp hlocate
  refine bind_eq_ok.mpr ⟨dir, ?_, hfound⟩
  unfold approach at hdir ⊢
  split at hdir
  · cases hdir
  split at hdir
  · cases hdir
  · rename_i hempty hlong
    rw [if_neg hempty, if_neg hlong]
    exact hfold _ _ _ hdir

/-- **A file that was written is read.** -/
theorem read_write (h : t.write path text = .ok t') : t'.read path = .ok text := by
  obtain ⟨hname, place, hplace, hdir, rfl⟩ := write_eq_ok.mp h
  have hroot : place ≠ [] := by
    rintro rfl
    exact hdir rfl
  refine bind_eq_ok.mpr ⟨place, locate_put hdir hplace, ?_⟩
  rw [get?_put t place place _ hroot, if_pos rfl, hname]
  rfl

/-- What writing takes does not depend on what is written. -/
theorem write_eq_error {fault : PathFault} (h : t.write path text = .error fault)
    (other : String) : ∃ fault, t.write path other = .error fault := by
  cases hother : t.write path other with
  | error fault => exact ⟨fault, rfl⟩
  | ok t' =>
    obtain ⟨hname, place, hplace, hdir, -⟩ := write_eq_ok.mp hother
    rw [write_eq_ok.mpr ⟨hname, place, hplace, hdir, rfl⟩] at h
    cases h

/-- **A file that holds a snapshot.** -/
def Holds (t : FileTree) (path : String) (s : Snapshot) : Prop :=
  ∃ text, t.read path = .ok text ∧ Snapshot.ofText text = .ok s

/-- **What a command works with**, as far as it is in the files. -/
structure Opens (t : FileTree) (o : Options) (path : String) (settings : Settings)
    (snapshot : Snapshot) : Prop where
  settings : (openSettings access o).run t = (.ok settings, t)
  snapshot : t.Holds path snapshot

end FileTree

open FileTree

/-! ## Commands -/

variable {t : FileTree} {o : Options} {terminal : Bool}

theorem run_bind {α β : Type} (x : StateM FileTree α) (f : α → StateM FileTree β) :
    (x >>= f).run t = (f (x.run t).1).run (x.run t).2 := rfl

theorem run_read (path : String) :
    (access.read path).run t = ((t.read path).mapError PathFault.message, t) := rfl

theorem run_isFile (path : String) : (access.isFile path).run t = (t.isFile path, t) := rfl

/-- Opening the settings leaves all files as they are. -/
theorem openSettings_run (t : FileTree) (o : Options) :
    ∃ found, (openSettings access o).run t = (found, t) := by
  unfold openSettings
  cases o.config with
  | some path =>
    dsimp only
    rw [pure_bind, run_bind, run_read]
    cases t.read path <;> exact ⟨_, rfl⟩
  | none =>
    rw [run_bind, run_isFile]
    cases t.isFile settingsFile with
    | false => exact ⟨.ok {}, rfl⟩
    | true =>
      rw [if_pos rfl, pure_bind]
      dsimp only
      rw [run_bind, run_read]
      cases t.read settingsFile <;> exact ⟨_, rfl⟩

/-- Opening a snapshot leaves all files as they are. -/
theorem openSnapshot_run (t : FileTree) (path : String) :
    (∃ s, t.Holds path s ∧ (openSnapshot access path).run t = (.ok s, t)) ∨
      (∀ s, ¬ t.Holds path s) ∧
        ∃ reason, (openSnapshot access path).run t = (.error reason, t) := by
  unfold openSnapshot
  rw [run_bind, run_read]
  cases hread : t.read path with
  | error fault =>
    refine .inr ⟨?_, _, rfl⟩
    rintro s ⟨text, htext, -⟩
    rw [hread] at htext
    cases htext
  | ok text =>
    cases hopen : Snapshot.ofText text with
    | ok s =>
      refine .inl ⟨s, ⟨text, hread, hopen⟩, ?_⟩
      show ((Snapshot.ofText text).mapError SnapshotError.message, t) = _
      rw [hopen]
      rfl
    | error e =>
      refine .inr ⟨?_, e.message, ?_⟩
      · rintro s ⟨text', htext, hs⟩
        rw [hread, Except.ok.injEq] at htext
        rw [← htext, hopen] at hs
        cases hs
      · show ((Snapshot.ofText text).mapError SnapshotError.message, t) = _
        rw [hopen]
        rfl

/-- **What a command that needs its inputs comes to.** -/
theorem withInputs_run (t : FileTree) (o : Options) (path : String)
    (work : Settings → Snapshot → StateM FileTree Output) :
    (∃ reason, (withInputs access o path work).run t = (failure "" reason, t) ∧
      ((∃ e, (openSettings access o).run t = (.error e, t)) ∨ ∀ s, ¬ t.Holds path s)) ∨
    ∃ settings snapshot, t.Opens o path settings snapshot ∧
      (withInputs access o path work).run t = (work settings snapshot).run t := by
  obtain ⟨found, hfound⟩ := openSettings_run t o
  unfold withInputs
  rw [run_bind, hfound]
  cases found with
  | error e => exact .inl ⟨_, rfl, .inl ⟨e, rfl⟩⟩
  | ok settings =>
    dsimp only
    rw [run_bind]
    rcases openSnapshot_run t path with ⟨s, hs, hrun⟩ | ⟨hnone, reason, hrun⟩
    · exact .inr ⟨settings, s, ⟨hfound, hs⟩, by rw [hrun]⟩
    · rw [hrun]
      exact .inl ⟨reason, rfl, .inr hnone⟩

/-- A command fails exactly if it has reported an error. -/
theorem exitCode_report (o : Options) (terminal : Bool) (heading : String)
    (findings : List Finding) (text : String) (fields : List (String × Json)) :
    (report o terminal heading findings text fields).exitCode =
      if (FindingLog.addAll {} findings).hasErrors then 1 else 0 := by
  unfold report
  dsimp only
  split <;> rfl

/-- The review that a command comes to with its inputs. -/
def reviewOf (o : Options) (settings : Settings) (snapshot : Snapshot) : Review :=
  snapshot.placement.review settings (o.expansionLimit.getD usualExpansionLimit)
    snapshot.design.routing

/-- What a repaired snapshot is written as. -/
def repairedText (o : Options) (settings : Settings) (snapshot : Snapshot) : String :=
  (snapshot.withRouting (reviewOf o settings snapshot).routing).text

theorem run_write (path text : String) :
    (access.write path text).run t =
      match t.write path text with
      | .ok t' => (.ok (), t')
      | .error fault => (.error fault.message, t) := by
  show StateT.run (match t.write path text with
    | .ok t' => do
      set t'
      return Except.ok ()
    | .error fault =>
      return Except.error fault.message : StateM FileTree (Except String Unit)) t = _
  cases t.write path text <;> rfl

/-- **What repairing a snapshot comes to**, as far as the review is known. -/
theorem runFix_run (t : FileTree) (o : Options) (terminal : Bool) (output : String)
    (settings : Settings) (snapshot : Snapshot) :
    ∃ out t', (runFix access o terminal output settings snapshot).run t = (out, t') ∧
      ((reviewOf o settings snapshot).reports = none ∧ out.exitCode = 1 ∧ t' = t ∨
        (∃ reports, (reviewOf o settings snapshot).reports = some reports) ∧
          ((∃ fault, t.write output (repairedText o settings snapshot) = .error fault) ∧
              out.exitCode = 1 ∧ t' = t ∨
            t.write output (repairedText o settings snapshot) = .ok t' ∧ out.exitCode = 0)) := by
  have herrors := snapshot.placement.hasErrors_review settings
    (o.expansionLimit.getD usualExpansionLimit) snapshot.design.routing
  unfold runFix
  dsimp only
  split
  · rename_i hnone
    refine ⟨_, t, rfl, .inl ⟨hnone, ?_, rfl⟩⟩
    rw [exitCode_report, herrors, hnone]
    rfl
  · rename_i reports hsome
    have hwrite := run_write (t := t) output (repairedText o settings snapshot)
    change ∃ out t', StateT.run (access.write output (repairedText o settings snapshot) >>= _) t =
      (out, t') ∧ _
    rw [run_bind, hwrite]
    cases t.write output (repairedText o settings snapshot) with
    | error fault =>
      exact ⟨_, t, rfl, .inr ⟨⟨reports, hsome⟩, .inl ⟨⟨fault, rfl⟩, rfl, rfl⟩⟩⟩
    | ok t' =>
      refine ⟨_, t', rfl, .inr ⟨⟨reports, hsome⟩, .inr ⟨rfl, ?_⟩⟩⟩
      rw [exitCode_report, herrors, hsome]
      rfl

/-! ## Refused or delivered -/

/-- **Why a repair is refused**: an input that cannot be opened, a pass that stops, or
an output that cannot be written. -/
inductive Refusal (t : FileTree) (o : Options) (input output : String) : Prop where
  | settings {e : SettingsError} (h : (openSettings access o).run t = (.error e, t))
  | snapshot (h : ∀ s, ¬ t.Holds input s)
  | stopped {settings : Settings} {s : Snapshot} {e : PassError} (h : t.Opens o input settings s)
    (hstops : s.placement.Stops settings (o.expansionLimit.getD usualExpansionLimit)
      s.design.routing e)
  | unwritable (h : ∀ text, ∃ fault, t.write output text = .error fault)

/-- **A repair that is delivered**: of all places only that of the output has changed,
and the file there holds the snapshot with the repaired routing. -/
structure Delivery (t t' : FileTree) (output : String) (s back : Snapshot)
    (repaired : RepairResult Unit) : Prop where
  elsewhere : t'.here = t.here ∧ ∃ place, t.locate output = .ok place ∧
    ∀ other, other ≠ place → t'.get? other = t.get? other
  holds : t'.Holds output back
  device : back.device = s.device
  netlist : back.design.netlist = s.design.netlist
  routing : ∀ net : NetId, net.index < s.design.netlist.nets.size →
    back.design.routing.of net = repaired.routing.of net
  unpicked : ∀ net : NetId, net.index < s.design.netlist.nets.size →
    (∀ pick ∈ repaired.picks, pick.candidate.net ≠ net) →
    back.design.routing.of net = s.design.routing.of net

/-- What the repair of a snapshot comes to. -/
def repairOf (o : Options) (settings : Settings) (s : Snapshot) : RepairResult Unit :=
  (s.placement.mazeRepairer settings (o.expansionLimit.getD usualExpansionLimit)).repair ()
    s.design.routing

variable {input output : String} {settings : Settings} {s : Snapshot}

/-- A command works with one snapshot under one set of settings. -/
theorem FileTree.Opens.unique (h : t.Opens o input settings s) {settings' : Settings}
    {s' : Snapshot} (h' : t.Opens o input settings' s') : settings = settings' ∧ s = s' := by
  obtain ⟨text, hread, hs⟩ := h.snapshot
  obtain ⟨text', hread', hs'⟩ := h'.snapshot
  have hsettings := h.settings.symm.trans h'.settings
  have htext : text = text' := Except.ok.inj (hread.symm.trans hread')
  subst htext
  exact ⟨by cases hsettings; rfl, Except.ok.inj (hs.symm.trans hs')⟩

/-- **What was written is what is delivered.** -/
theorem delivery_of_write (hopens : t.Opens o input settings s) {t' : FileTree}
    (hrouting : (reviewOf o settings s).routing = (repairOf o settings s).routing)
    (hwrite : t.write output (repairedText o settings s) = .ok t') :
    ∃ back, Delivery t t' output s back (repairOf o settings s) := by
  obtain ⟨text, -, htext⟩ := hopens.snapshot
  have hindexed := (Snapshot.indexed_of_ofText htext).withRouting (reviewOf o settings s).routing
  have hback := Snapshot.ofText_of_indexed hindexed
  have hroutes : ∀ net : NetId, net.index < s.design.netlist.nets.size →
      (s.withRouting (reviewOf o settings s).routing).design.written.routing.of net =
        (repairOf o settings s).routing.of net := by
    intro net hnet
    rw [← hrouting]
    exact Design.entry_written _ hnet
  obtain ⟨place, hplace, hchanged⟩ := get?_write hwrite
  obtain ⟨-, target, -, -, hput⟩ := write_eq_ok.mp hwrite
  refine ⟨_, ⟨by rw [hput]; rfl, place, hplace, fun other hother => ?_⟩,
    ⟨_, read_write hwrite, hback⟩, rfl, hindexed.netlist, hroutes, fun net hnet hnone => ?_⟩
  · rw [hchanged, if_neg hother]
  · refine (hroutes net hnet).trans ?_
    exact Repairer.routing_of_unpicked (mazeRouter_confined _) () s.design.routing hnone

/-- **A repair is refused or delivered.** If it is refused, no file has changed; if it
is delivered, only the output has, and it holds the snapshot with the repaired
routing. In particular nothing is written if one of the passes stops. -/
theorem run_fix (t : FileTree) (terminal : Bool) {args : List String}
    (h : read args = .ok { command := .fix input output, options := o }) :
    ∃ out t', (run access terminal args).run t = (out, t') ∧
      (out.exitCode = 1 ∧ t' = t ∧ Refusal t o input output ∨
        out.exitCode = 0 ∧ ∃ settings s back, t.Opens o input settings s ∧
          Delivery t t' output s back (repairOf o settings s)) ∧
      ∀ settings s e, t.Opens o input settings s →
        s.placement.Stops settings (o.expansionLimit.getD usualExpansionLimit)
          s.design.routing e → out.exitCode = 1 ∧ t' = t := by
  have hrun : run access terminal args =
      withInputs access o input (runFix access o terminal output) := by
    rw [run, h]
    rfl
  rw [hrun]
  rcases withInputs_run t o input (runFix access o terminal output) with
    ⟨reason, hfail, hwhy⟩ | ⟨settings, s, hopens, hwork⟩
  · refine ⟨_, t, hfail, .inl ⟨rfl, rfl, ?_⟩, fun _ _ _ _ _ => ⟨rfl, rfl⟩⟩
    rcases hwhy with ⟨e, he⟩ | hnone
    · exact .settings he
    · exact .snapshot hnone
  obtain ⟨out, t', hfix, hcases⟩ := runFix_run t o terminal output settings s
  have hreview := s.placement.review_cases settings (o.expansionLimit.getD usualExpansionLimit)
    s.design.routing
  refine ⟨out, t', by rw [hwork, hfix], ?_, ?_⟩
  · rcases hcases with ⟨hnone, hcode, hsame⟩ | ⟨⟨reports, hsome⟩, hcases⟩
    · rcases hreview with ⟨-, e, hstops⟩ | ⟨⟨reports, hno⟩, -⟩
      · exact .inl ⟨hcode, hsame, .stopped hopens hstops⟩
      · have hcontra := hnone.symm.trans hno
        cases hcontra
    · rcases hcases with ⟨⟨fault, hfault⟩, hcode, hsame⟩ | ⟨hwrite, hcode⟩
      · exact .inl ⟨hcode, hsame, .unwritable fun text => write_eq_error hfault text⟩
      · rcases hreview with ⟨hno, -⟩ | ⟨-, -, hrouting⟩
        · have hcontra := hno.symm.trans hsome
          cases hcontra
        · obtain ⟨back, hdelivery⟩ := delivery_of_write hopens hrouting hwrite
          exact .inr ⟨hcode, settings, s, back, hopens, hdelivery⟩
  · intro settings' s' e hopens' hstops
    obtain ⟨rfl, rfl⟩ := hopens.unique hopens'
    rcases hcases with ⟨-, hcode, hsame⟩ | ⟨⟨reports, hsome⟩, -⟩
    · exact ⟨hcode, hsame⟩
    · rcases hreview with ⟨hno, -⟩ | ⟨-, hnone, -⟩
      · have hcontra := hno.symm.trans hsome
        cases hcontra
      · exact absurd hstops (hnone e)

/-! ## A repair that is delivered

Three files with one letter each: a snapshot, settings and the output. -/

theorem steps_of_mem {name : String} (h : name ∈ ["a", "b", "c"]) : Path.steps name = [name] := by
  simp only [List.mem_cons, List.not_mem_nil, or_false] at h
  -- two steps of splitting take a single character apart
  rcases h with rfl | rfl | rfl <;>
  · rw [Path.steps, String.splitOn, if_neg (by decide), String.splitOnAux,
      if_neg (by decide +kernel), if_neg (by decide +kernel), String.splitOnAux,
      if_pos (by decide +kernel)]
    decide +kernel

theorem namesDirectory_of_mem {name : String} (h : name ∈ ["a", "b", "c"]) :
    Path.namesDirectory name = false := by
  have hall : ∀ name ∈ ["a", "b", "c"], Path.namesDirectory name = false := by decide +kernel
  exact hall name h

/-- A single letter leads to a place below the root. -/
theorem locate_of_mem (hhere : t.here = []) {name : String}
    (h : name ∈ ["a", "b", "c"]) : t.locate name = .ok [name] := by
  have hsteps := steps_of_mem h
  have hsizes : ∀ name ∈ ["a", "b", "c"], name ≠ "" ∧ ¬ Path.maxSize < name.utf8ByteSize ∧
      Path.isAbsolute name = false ∧ Place.step [] name = .ok [name] := by
    decide +kernel
  obtain ⟨hne, hsize, hrelative, hstep⟩ := hsizes name h
  have happroach : t.approach name = .ok [] := by
    rw [approach, if_neg hne, if_neg hsize, hsteps, hrelative, hhere]
    rfl
  rw [locate, happroach, hsteps]
  exact hstep

theorem read_of_mem (hhere : t.here = []) {name text : String}
    (h : name ∈ ["a", "b", "c"]) (hfile : t.get? [name] = some (.file text)) :
    t.read name = .ok text := by
  refine bind_eq_ok.mpr ⟨[name], locate_of_mem hhere h, ?_⟩
  rw [hfile, namesDirectory_of_mem h]
  rfl

/-- The snapshot of the short ways. -/
def shortWaysSnapshot : Snapshot where
  device := Placement.twoSinks.device
  design := { netlist := Placement.twoSinks.netlist.reindex, routing := Placement.shortWays }

theorem indexed_shortWaysSnapshot : shortWaysSnapshot.Indexed :=
  ⟨Placement.ready_twoSinks.indexed, by decide +kernel, rfl⟩

/-- A byte that no text begins with. -/
def noText : Binary := ⟨[255], by decide⟩

/-- The short ways as a file, beside settings that say nothing and an output that is not a
text yet. -/
def bench : FileTree :=
  ((({} : FileTree).put ["a"] (.file shortWaysSnapshot.text)).put ["b"] (.binary noText)).put
    ["c"] (.file "")

/-- The settings are those of the file that is named. -/
theorem openSettings_of_config {path text : String} (hpath : o.config = some path)
    (hread : t.read path = .ok text) (hsettings : Settings.ofToml text = .ok settings) :
    (openSettings access o).run t = (.ok settings, t) := by
  have hfile := run_read (t := t) path
  unfold openSettings
  rw [hread] at hfile
  rw [hpath, ← hsettings]
  dsimp only
  rw [pure_bind, run_bind, hfile]
  rfl

/-- The snapshot of the short ways as it is read. -/
def openedShortWays : Snapshot where
  device := shortWaysSnapshot.device
  design := shortWaysSnapshot.design.written.reindex

theorem opens_bench : bench.Opens { config := some "c" } "a" {} openedShortWays := by
  have hsettings : bench.read "c" = .ok "" :=
    read_of_mem rfl (by decide) (by rw [bench, get?_put _ _ _ _ (by decide), if_pos rfl])
  have hsnapshot : bench.read "a" = .ok shortWaysSnapshot.text :=
    read_of_mem rfl (by decide) (by
      rw [bench, get?_put _ _ _ _ (by decide), if_neg (by decide), get?_put _ _ _ _ (by decide),
        if_neg (by decide), get?_put _ _ _ _ (by decide), if_pos rfl])
  exact ⟨openSettings_of_config rfl hsettings (by decide +kernel), _, hsnapshot,
    Snapshot.ofText_of_indexed indexed_shortWaysSnapshot⟩

theorem not_stops_openedShortWays (e : PassError) :
    ¬ openedShortWays.placement.Stops {} usualExpansionLimit openedShortWays.design.routing e := by
  have hok : ∀ {α : Type} {x : Except PassError α}, x.isOk = true → x ≠ .error e := by
    rintro α x hx rfl
    cases hx
  rintro (h | h | h)
  · exact hok (by decide +kernel) h
  · refine hok ?_ h
    rw [Repairer.repair_eq_insertionSort]
    decide +kernel
  · refine hok ?_ h
    rw [Repairer.repair_eq_insertionSort]
    decide +kernel

theorem write_bench (text : String) : ∃ t', bench.write "b" text = .ok t' := by
  refine ⟨_, write_eq_ok.mpr ⟨namesDirectory_of_mem (by decide), ["b"],
    locate_of_mem rfl (by decide), ?_, rfl⟩⟩
  rw [bench, get?_put _ _ _ _ (by decide), if_neg (by decide), get?_put _ _ _ _ (by decide),
    if_pos rfl]
  simp

theorem delivered_bench :
    read ["--config", "c", "fix", "a", "b"] =
        .ok { command := .fix "a" "b", options := { config := some "c" } } ∧
      ∃ out t' back, (run access false ["--config", "c", "fix", "a", "b"]).run bench = (out, t') ∧
        out.exitCode = 0 ∧
        Delivery bench t' "b" openedShortWays back
          (repairOf { config := some "c" } {} openedShortWays) := by
  have hread : read ["--config", "c", "fix", "a", "b"] =
      .ok { command := .fix "a" "b", options := { config := some "c" } } := by
    decide +kernel
  obtain ⟨out, t', hrun, hcases, -⟩ := run_fix bench false hread
  rcases hcases with ⟨-, -, hrefusal⟩ | ⟨hcode, settings, s, back, hopens, hdelivery⟩
  · exfalso
    rcases hrefusal with hno | hnone | ⟨hopens, hstops⟩ | hno
    · have hcontra := opens_bench.settings.symm.trans hno
      cases hcontra
    · exact hnone _ opens_bench.snapshot
    · obtain ⟨rfl, rfl⟩ := opens_bench.unique hopens
      exact not_stops_openedShortWays _ hstops
    · obtain ⟨t', ht'⟩ := write_bench ""
      obtain ⟨fault, hfault⟩ := hno ""
      have hcontra := ht'.symm.trans hfault
      cases hcontra
  · obtain ⟨rfl, rfl⟩ := opens_bench.unique hopens
    exact ⟨hread, out, t', back, hrun, hcode, hdelivery⟩

end CommandLine

end HoldMargin
