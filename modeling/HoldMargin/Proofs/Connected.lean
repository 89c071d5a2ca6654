import HoldMargin.Proofs.Carried
import HoldMargin.Proofs.Warranted
/-!
# The connections of a net

The connections of a net are read off its sinks, each of which is served on its own
(`Placement.Serves`): who drives it depends on the two pins, and where it leaves the
fabric on their projections. So a sink that is listed again makes no other connection,
and it does not matter that a driver is projected once and looked up from then on
(`Placement.connectAll_eq`). Finding them out stops at the first sink that nothing serves.
-/

namespace HoldMargin

open Pass

namespace Placement

variable {p : Placement} {id : NetId} {n : Net} {source sink driver : PinId} {index : Nat}
  {c : Connection} {cs : List Connection}

/-! ## First occurrences -/

/-- **The first sinks** of a list, with their positions. -/
theorem firstSinks_eq_map (seen : List PinId) (position : Nat) (ss : List PinId) :
    firstSinks seen position ss =
      (ss.filter (· ∉ seen)).eraseDups.map fun s => (position + ss.idxOf s, s) := by
  induction ss generalizing seen position with
  | nil => rfl
  | cons s ss ih =>
    -- a member that is still to come stands one place further
    have hlater : ∀ seen : List PinId, s ∈ seen →
        ((ss.filter (· ∉ seen)).eraseDups.map fun t => (position + 1 + ss.idxOf t, t)) =
          (ss.filter (· ∉ seen)).eraseDups.map fun t => (position + (s :: ss).idxOf t, t) := by
      intro seen hs
      refine List.map_congr_left fun t ht => ?_
      have hne : t ≠ s := by
        rintro rfl
        rw [List.mem_eraseDups, List.mem_filter] at ht
        simp [hs] at ht
      rw [List.idxOf_cons_ne _ hne.symm, Nat.add_assoc, Nat.add_comm 1]
    rw [firstSinks]
    split
    · rename_i hs
      rw [ih, List.filter_cons_of_neg (by simpa using hs), hlater seen hs]
    · rename_i hs
      have hfilter : (ss.filter (· ∉ seen)).filter (fun t => !t == s) =
          ss.filter (· ∉ s :: seen) := by
        rw [List.filter_filter]
        refine List.filter_congr fun t _ => ?_
        by_cases ht : t = s <;> simp [ht]
      rw [ih, List.filter_cons_of_pos (by simpa using hs), List.eraseDups_cons, hfilter,
        hlater (s :: seen) List.mem_cons_self, List.map_cons, List.idxOf_cons_self, Nat.add_zero]

/-- A list of sinks has a first bad member if its first sinks do. -/
theorem firstBad_firstSinks {good bad : PinId → Prop} (hbad : ∀ s, bad s → ¬ good s)
    {seen : List PinId} (hseen : ∀ s ∈ seen, good s) {position : Nat} {ss : List PinId} :
    FirstBad (fun x => good x.2) (fun x => bad x.2) (firstSinks seen position ss) ↔
      FirstBad good bad ss := by
  induction ss generalizing seen position with
  | nil => exact iff_of_false not_firstBad_nil not_firstBad_nil
  | cons s ss ih =>
    rw [firstSinks, firstBad_cons]
    split
    · -- what was met before is good
      rename_i hs
      have hgood := hseen s hs
      rw [ih hseen]
      exact ⟨fun h => .inr ⟨hgood, h⟩, fun h => (h.resolve_left fun h => hbad s h hgood).2⟩
    · rw [firstBad_cons]
      exact or_congr Iff.rfl
        (and_congr_right fun hs => ih (List.forall_mem_cons.mpr ⟨hs, hseen⟩))

/-! ## What serves a sink -/

/-- **A sink that a carry output does not reach**: it is not the carry input of the site that
follows. -/
def OutOfReach (p : Placement) (source sink : PinId) : Prop :=
  ∃ src dst, p.netlist.pin? source = some src ∧ src.role = .carryOut ∧
    p.netlist.pin? sink = some dst ∧
    ¬ (dst.role = .carryIn ∧
      ∃ site, p.device.site? src.site = some site ∧ site.carrySuccessor = some dst.site)

/-- The fabric feeds a sink at a node. -/
def Feeds (p : Placement) (exit : NodeId) (sink : PinId) : Prop :=
  ∃ pin, p.netlist.pin? sink = some pin ∧ p.device.inputEntry? pin.onSite = some exit

theorem feeds_iff {dst : Pin} (hdst : p.netlist.pin? sink = some dst) {exit : NodeId} :
    p.Feeds exit sink ↔ p.device.inputEntry? dst.onSite = some exit := by
  simp [Feeds, hdst]

/-- A driver enters the fabric at a node. -/
def Enters (p : Placement) (driver : PinId) (entry : NodeId) : Prop :=
  ∃ pin, p.netlist.pin? driver = some pin ∧ p.device.outputEntry? pin.onSite = some entry

theorem enters_iff {src : Pin} (hsrc : p.netlist.pin? driver = some src) {entry : NodeId} :
    p.Enters driver entry ↔ p.device.outputEntry? src.onSite = some entry := by
  simp [Enters, hsrc]

/-- **What serves a sink of a net**: the source, or the alternate source if the source does not
reach the sink, and the nodes at which the two pins meet the fabric, if both of them do. -/
structure Serves (p : Placement) (n : Net) (source sink driver : PinId)
    (ends : Option FabricEnds) : Prop where
  source_known : ∃ pin, p.netlist.pin? source = some pin
  sink_known : ∃ pin, p.netlist.pin? sink = some pin
  drives : p.OutOfReach source sink ∧ n.alternateSource = some driver ∨
    ¬ p.OutOfReach source sink ∧ driver = source
  /-- The driver is only looked at for a sink that the fabric feeds. -/
  driver_known : ∀ exit, p.Feeds exit sink → ∃ pin, p.netlist.pin? driver = some pin
  ends_iff : ∀ e, ends = some e ↔ p.Feeds e.sink sink ∧ p.Enters driver e.driver

/-- **A connection runs through the fabric** exactly if both of its pins meet it. -/
theorem Serves.isDirect_eq_false (h : p.Serves n source c.sink c.driver c.ends) :
    c.isDirect = false ↔ (∃ exit, p.Feeds exit c.sink) ∧ ∃ entry, p.Enters c.driver entry := by
  rw [Connection.isDirect, Option.isNone_eq_false_iff, Option.isSome_iff_exists]
  constructor
  · rintro ⟨ends, hends⟩
    obtain ⟨hfeeds, henters⟩ := (h.ends_iff ends).mp hends
    exact ⟨⟨_, hfeeds⟩, _, henters⟩
  · rintro ⟨⟨exit, hfeeds⟩, entry, henters⟩
    exact ⟨⟨entry, exit⟩, (h.ends_iff _).mpr ⟨hfeeds, henters⟩⟩

/-! ## Pins -/

/-- A pin is not known. -/
def LacksPin (e : PassError) : Prop := ∃ id, e = .unknownPin id

theorem lacksPin_pin (id : PinId) : FailsOnly LacksPin (p.pin id) := by
  intro e h
  unfold Placement.pin at h
  split at h <;> cases h
  exact ⟨id, rfl⟩

theorem lacksPin_needsAlternate (source sink : PinId) :
    FailsOnly LacksPin (p.needsAlternate source sink) := by
  refine (lacksPin_pin source).bind fun src _ => ?_
  split
  · exact (lacksPin_pin sink).bind fun _ _ => failsOnly_ok _
  · exact failsOnly_ok _

theorem lacksPin_endsOf (driver sink : PinId) : FailsOnly LacksPin (p.endsOf driver sink) := by
  refine (lacksPin_pin sink).bind fun dst _ => ?_
  split
  · exact failsOnly_ok _
  · exact (lacksPin_pin driver).bind fun _ _ => failsOnly_ok _

/-! ## The driver of a sink -/

theorem needsAlternate_eq_true :
    p.needsAlternate source sink = .ok true ↔ p.OutOfReach source sink := by
  unfold needsAlternate OutOfReach
  rw [bind_eq_ok]
  constructor
  · rintro ⟨src, hsrc, h⟩
    split at h
    · rename_i hrole
      obtain ⟨dst, hdst, h⟩ := bind_eq_ok.mp h
      refine ⟨src, dst, pin_eq_ok.mp hsrc, hrole, pin_eq_ok.mp hdst, ?_⟩
      simpa [Option.bind_eq_some_iff, imp_iff_not_or] using h
    · cases h
  · rintro ⟨src, dst, hsrc, hrole, hdst, h⟩
    refine ⟨src, pin_eq_ok.mpr hsrc, ?_⟩
    rw [if_pos hrole]
    refine bind_eq_ok.mpr ⟨dst, pin_eq_ok.mpr hdst, ?_⟩
    simpa [Option.bind_eq_some_iff, imp_iff_not_or] using h

theorem needsAlternate_eq_false {dst : Pin} (hdst : p.netlist.pin? sink = some dst) :
    p.needsAlternate source sink = .ok false ↔
      (∃ src, p.netlist.pin? source = some src) ∧ ¬ p.OutOfReach source sink := by
  constructor
  · intro h
    refine ⟨?_, fun hout => ?_⟩
    · obtain ⟨src, hsrc, -⟩ := bind_eq_ok.mp h
      exact ⟨src, pin_eq_ok.mp hsrc⟩
    · rw [needsAlternate_eq_true.mpr hout] at h
      cases h
  · rintro ⟨⟨src, hsrc⟩, hreach⟩
    -- with both pins known there is an answer, and it is not yes
    cases h : p.needsAlternate source sink with
    | ok b =>
      cases b with
      | false => rfl
      | true => exact absurd (needsAlternate_eq_true.mp h) hreach
    | error e =>
      unfold needsAlternate at h
      rw [pin_eq_ok.mpr hsrc, pin_eq_ok.mpr hdst] at h
      rcases bind_eq_error.mp h with h | ⟨src', -, h⟩
      · cases h
      · split at h <;> cases h

theorem driverOf_eq_ok {dst : Pin} (hdst : p.netlist.pin? sink = some dst) :
    p.driverOf n source sink = .ok driver ↔
      (∃ src, p.netlist.pin? source = some src) ∧
        (p.OutOfReach source sink ∧ n.alternateSource = some driver ∨
          ¬ p.OutOfReach source sink ∧ driver = source) := by
  unfold driverOf
  rw [bind_eq_ok]
  constructor
  · rintro ⟨_ | _, hneeds, h⟩
    · cases h
      obtain ⟨hsource, hreach⟩ := (needsAlternate_eq_false hdst).mp hneeds
      exact ⟨hsource, .inr ⟨hreach, rfl⟩⟩
    · have hout := needsAlternate_eq_true.mp hneeds
      obtain ⟨src, -, hsrc, -⟩ := id hout
      rw [if_pos rfl] at h
      split at h <;> cases h
      exact ⟨⟨src, hsrc⟩, .inl ⟨hout, ‹_›⟩⟩
  · rintro ⟨hsource, ⟨hout, halternate⟩ | ⟨hreach, rfl⟩⟩
    · exact ⟨true, needsAlternate_eq_true.mpr hout, by rw [if_pos rfl, halternate]⟩
    · exact ⟨false, (needsAlternate_eq_false hdst).mpr ⟨hsource, hreach⟩, rfl⟩

/-- A driver is missing for a sink that the source does not reach, if the net has no other. -/
theorem driverOf_eq_missing {name d s : String} :
    p.driverOf n source sink = .error (.missingAlternateSource name d s) ↔
      p.OutOfReach source sink ∧ n.alternateSource = none ∧
        name = n.name ∧ d = p.label source ∧ s = p.label sink := by
  unfold driverOf
  rw [bind_eq_error]
  constructor
  · rintro (h | ⟨_ | _, hneeds, h⟩)
    · obtain ⟨_, hno⟩ := lacksPin_needsAlternate source sink _ h
      cases hno
    · cases h
    · rw [if_pos rfl] at h
      split at h <;> cases h
      exact ⟨needsAlternate_eq_true.mp hneeds, ‹_›, rfl, rfl, rfl⟩
  · rintro ⟨hout, hnone, rfl, rfl, rfl⟩
    exact .inr ⟨true, needsAlternate_eq_true.mpr hout, by rw [if_pos rfl, hnone]⟩

/-! ## One connection -/

theorem endsOf_eq_ok_iff {ends : Option FabricEnds} :
    p.endsOf driver sink = .ok ends ↔
      (∃ pin, p.netlist.pin? sink = some pin) ∧
        (∀ exit, p.Feeds exit sink → ∃ pin, p.netlist.pin? driver = some pin) ∧
        ∀ e, ends = some e ↔ p.Feeds e.sink sink ∧ p.Enters driver e.driver := by
  unfold endsOf
  cases hdst : p.netlist.pin? sink with
  | none => simp [bind_eq_ok, pin_eq_ok, hdst]
  | some dst =>
    rw [pin_eq_ok.mpr hdst]
    simp only [feeds_iff hdst, bind_eq_ok, Except.ok.injEq, exists_eq_left']
    cases hexit : p.device.inputEntry? dst.onSite with
    | none => simp [eq_comm, Option.eq_none_iff_forall_ne_some]
    | some exit =>
      cases hsrc : p.netlist.pin? driver with
      | none => simp [bind_eq_ok, pin_eq_ok, hsrc]
      | some src =>
        have hends : ∀ e : FabricEnds, (p.device.outputEntry? src.onSite).map
            (fun entry => (⟨entry, exit⟩ : FabricEnds)) = some e ↔
              exit = e.sink ∧ p.device.outputEntry? src.onSite = some e.driver := by
          rintro ⟨entry', exit'⟩
          simp only [Option.map_eq_some_iff, FabricEnds.mk.injEq]
          grind
        simp only [pin_eq_ok.mpr hsrc, enters_iff hsrc, Option.some.injEq, exists_eq', implies_true,
          true_and, bind_eq_ok, Except.ok.injEq, exists_eq_left', ← hends]
        rw [eq_comm, Option.ext_iff]

/-- **The connection to a sink** is found out exactly if something serves the sink. -/
theorem connect_eq_ok_iff :
    (p.connect id n source index sink).outcome = .ok c ↔
      c.index = index ∧ c.net = id ∧ c.sink = sink ∧ p.Serves n source sink c.driver c.ends := by
  simp only [outcome_connect, bind_eq_ok, Except.ok.injEq]
  constructor
  · rintro ⟨driver, hdriver, ends, hends, rfl⟩
    obtain ⟨⟨dst, hdst⟩, hknown, hends⟩ := endsOf_eq_ok_iff.mp hends
    obtain ⟨hsource, hdrives⟩ := (driverOf_eq_ok hdst).mp hdriver
    exact ⟨rfl, rfl, rfl, hsource, ⟨dst, hdst⟩, hdrives, hknown, hends⟩
  · rintro ⟨rfl, rfl, rfl, hsource, ⟨dst, hdst⟩, hdrives, hknown, hends⟩
    exact ⟨c.driver, (driverOf_eq_ok hdst).mpr ⟨hsource, hdrives⟩, c.ends,
      endsOf_eq_ok_iff.mpr ⟨⟨dst, hdst⟩, hknown, hends⟩, rfl⟩

theorem exists_connect_iff :
    (∃ c, (p.connect id n source index sink).outcome = .ok c) ↔
      ∃ driver ends, p.Serves n source sink driver ends := by
  simp only [connect_eq_ok_iff]
  exact ⟨fun ⟨c, _, _, _, h⟩ => ⟨c.driver, c.ends, h⟩,
    fun ⟨driver, ends, h⟩ => ⟨{ index, net := id, driver, sink, ends }, rfl, rfl, rfl, h⟩⟩

theorem connect_eq_missing {name d s : String} :
    (p.connect id n source index sink).outcome = .error (.missingAlternateSource name d s) ↔
      p.OutOfReach source sink ∧ n.alternateSource = none ∧
        name = n.name ∧ d = p.label source ∧ s = p.label sink := by
  rw [outcome_connect, bind_eq_error, ← driverOf_eq_missing]
  refine or_iff_left ?_
  rintro ⟨driver, -, h⟩
  rcases bind_eq_error.mp h with h | ⟨ends, -, h⟩
  · obtain ⟨_, hno⟩ := lacksPin_endsOf driver sink _ h
    cases hno
  · cases h

/-! ## What is registered -/

end Placement

/-- The node at an end. -/
def FabricEnds.node (ends : FabricEnds) : End → NodeId
  | .driver => ends.driver
  | .sink => ends.sink

/-- What is registered for a connection. -/
def Connection.entries (c : Connection) : List Event :=
  c.ends.toList.flatMap fun ends => [.entry .driver ends.driver, .entry .sink ends.sink]

theorem Connection.mem_entries {c : Connection} {e : End} {x : NodeId} :
    .entry e x ∈ c.entries ↔ ∃ ends, c.ends = some ends ∧ x = ends.node e := by
  cases e <;> simp [entries, FabricEnds.node]

namespace Placement

variable {p : Placement} {id : NetId} {n : Net} {source sink driver : PinId} {index : Nat}
  {c : Connection} {cs : List Connection}

theorem events_connect (h : (p.connect id n source index sink).outcome = .ok c) :
    (p.connect id n source index sink).events = c.entries := by
  unfold connect at h ⊢
  obtain ⟨driver, -, h, hevents⟩ := exists_of_ofExcept_bind h
  obtain ⟨ends, -, h, hevents'⟩ := exists_of_ofExcept_bind h
  rw [hevents, hevents']
  cases ends <;> cases h <;> rfl

/-! ## Drivers that are projected once -/

/-- Where drivers enter the fabric, as far as that has been found out. -/
abbrev EntryMemo := IdMap .pins (Option NodeId)

/-- Where a driver enters the fabric, which is looked up if it has been found out before. -/
def entryBy (p : Placement) (memo : EntryMemo) (driver : PinId) :
    Except PassError (Option NodeId × EntryMemo) :=
  match memo.get? driver with
  | some entry => .ok (entry, memo)
  | none => do
    let pin ← p.pin driver
    let entry := p.device.outputEntry? pin.onSite
    .ok (entry, memo.insert driver entry)

/-- The ends of a connection in the fabric, if it has both. -/
def endsBy (p : Placement) (memo : EntryMemo) (driver sink : PinId) :
    Except PassError (Option FabricEnds × EntryMemo) := do
  let sinkPin ← p.pin sink
  match p.device.inputEntry? sinkPin.onSite with
  | none => .ok (none, memo)
  | some exit =>
    let (entry, memo) ← p.entryBy memo driver
    .ok (entry.map fun entry => ⟨entry, exit⟩, memo)

/-- The connections to the sinks of a list, but for those that have been seen. -/
def connectAll (p : Placement) (id : NetId) (net : Net) (source : PinId) (seen : List PinId)
    (memo : EntryMemo) (position : Nat) : List PinId → Pass (List Connection)
  | [] => return []
  | sink :: sinks =>
    if sink ∈ seen then p.connectAll id net source seen memo (position + 1) sinks
    else do
      let driver ← Pass.ofExcept (p.driverOf net source sink)
      let (ends, memo) ← Pass.ofExcept (p.endsBy memo driver sink)
      match ends with
      | some ends =>
        Pass.register .driver ends.driver
        Pass.register .sink ends.sink
      | none => Pass.pure ()
      let rest ← p.connectAll id net source (sink :: seen) memo (position + 1) sinks
      return { index := position, net := id, driver, sink, ends } :: rest

/-- What has been found out is so. -/
def Remembers (p : Placement) (memo : EntryMemo) : Prop :=
  ∀ driver entry, memo.get? driver = some entry →
    ∃ pin, p.pin driver = .ok pin ∧ p.device.outputEntry? pin.onSite = entry

theorem remembers_empty : p.Remembers ∅ := by
  intro driver entry h
  cases h

/-- **Looking a driver up says what projecting it says**, and remembers it. -/
theorem entryBy_cases {memo : EntryMemo} (hmemo : p.Remembers memo) (driver : PinId) :
    (∃ e, p.pin driver = .error e ∧ p.entryBy memo driver = .error e) ∨
      ∃ pin memo', p.pin driver = .ok pin ∧ p.Remembers memo' ∧
        p.entryBy memo driver = .ok (p.device.outputEntry? pin.onSite, memo') := by
  unfold entryBy
  split
  · rename_i entry hentry
    obtain ⟨pin, hpin, rfl⟩ := hmemo driver entry hentry
    exact .inr ⟨pin, memo, hpin, hmemo, rfl⟩
  · cases hpin : p.pin driver with
    | error e => exact .inl ⟨e, rfl, rfl⟩
    | ok pin =>
      refine .inr ⟨pin, _, rfl, fun d entry h => ?_, rfl⟩
      rw [IdMap.get?_insert] at h
      split at h
      · rename_i heq
        cases h
        exact ⟨pin, heq ▸ hpin, rfl⟩
      · exact hmemo d entry h

theorem endsBy_cases {memo : EntryMemo} (hmemo : p.Remembers memo) (driver sink : PinId) :
    (∃ e, p.endsOf driver sink = .error e ∧ p.endsBy memo driver sink = .error e) ∨
      ∃ ends memo', p.endsOf driver sink = .ok ends ∧ p.Remembers memo' ∧
        p.endsBy memo driver sink = .ok (ends, memo') := by
  unfold endsOf endsBy
  cases p.pin sink with
  | error e => exact .inl ⟨e, rfl, rfl⟩
  | ok dst =>
    dsimp only [Bind.bind, Except.bind]
    cases p.device.inputEntry? dst.onSite with
    | none => exact .inr ⟨none, memo, rfl, hmemo, rfl⟩
    | some exit =>
      rcases entryBy_cases hmemo driver with ⟨e, hpin, hby⟩ | ⟨pin, memo', hpin, hmemo', hby⟩
      · exact .inl ⟨e, by rw [hpin], by rw [hby]⟩
      · exact .inr ⟨_, memo', by rw [hpin], hmemo', by rw [hby]⟩

/-- **Projecting each driver once makes the same connections** and registers the same. -/
theorem connectAll_eq {memo : EntryMemo} (hmemo : p.Remembers memo) (seen : List PinId)
    (position : Nat) (ss : List PinId) :
    p.connectAll id n source seen memo position ss =
      (firstSinks seen position ss).mapM fun x => p.connect id n source x.1 x.2 := by
  induction ss generalizing seen memo position with
  | nil => rfl
  | cons s ss ih =>
    rw [connectAll, firstSinks]
    split
    · exact ih hmemo seen (position + 1)
    rw [List.mapM_cons, connect]
    cases p.driverOf n source s with
    | error e => rfl
    | ok driver =>
      simp only [ofExcept_ok_bind]
      rcases endsBy_cases hmemo driver s with ⟨e, hends, hby⟩ | ⟨ends, memo', hends, hmemo', hby⟩
      · rw [hends, hby]
        rfl
      · rw [hends, hby]
        simp only [ofExcept_ok_bind, ← ih hmemo' (s :: seen) (position + 1)]
        cases ends <;> rfl

/-! ## All connections -/

theorem connections_eq_mapM (hn : p.netlist.net? id = some n) (hsource : n.source = some source) :
    p.connections id =
      (firstSinks [] 0 n.sinks).mapM fun x => p.connect id n source x.1 x.2 := by
  unfold connections
  rw [net_eq_ok.mpr hn]
  simp only [ofExcept_ok_bind, hsource]

/-- Finding out the connections succeeds with one for each sink. -/
theorem connections_eq_ok_iff (hn : p.netlist.net? id = some n) (hsource : n.source = some source) :
    (p.connections id).outcome = .ok cs ↔
      List.Forall₂ (fun s c => c.index = n.sinks.idxOf s ∧ c.net = id ∧ c.sink = s ∧
        p.Serves n source s c.driver c.ends) n.sinks.eraseDups cs := by
  have hall : n.sinks.filter (· ∉ []) = n.sinks := List.filter_eq_self.mpr (by simp)
  rw [connections_eq_mapM hn hsource, outcome_mapM, mapM_eq_ok, firstSinks_eq_map, hall,
    List.forall₂_map_left_iff]
  simp only [connect_eq_ok_iff, Nat.zero_add]

/-- What finding out the connections leaves behind is what is registered for each. -/
theorem events_connections (hn : p.netlist.net? id = some n) (hsource : n.source = some source)
    (h : (p.connections id).outcome = .ok cs) :
    (p.connections id).events = cs.flatMap Connection.entries := by
  rw [connections_eq_mapM hn hsource] at h ⊢
  rw [events_mapM h]
  rw [outcome_mapM, mapM_eq_ok] at h
  generalize firstSinks [] 0 n.sinks = xs at h ⊢
  induction h with
  | nil => rfl
  | cons hc _ ih => rw [List.flatMap_cons, List.flatMap_cons, events_connect hc, ih]

theorem connections_eq_missing (hn : p.netlist.net? id = some n) (hsource : n.source = some source)
    {name d s : String} :
    (p.connections id).outcome = .error (.missingAlternateSource name d s) ↔
      FirstBad (fun t => ∃ driver ends, p.Serves n source t driver ends)
        (fun t => p.OutOfReach source t ∧ n.alternateSource = none ∧
          name = n.name ∧ d = p.label source ∧ s = p.label t) n.sinks := by
  have hbad : ∀ t, (p.OutOfReach source t ∧ n.alternateSource = none ∧
      name = n.name ∧ d = p.label source ∧ s = p.label t) →
      ¬ ∃ driver ends, p.Serves n source t driver ends := by
    rintro t ⟨hout, hnone, -⟩ ⟨driver, ends, hserves⟩
    rcases hserves.drives with ⟨-, hsome⟩ | ⟨hreach, -⟩
    · rw [hnone] at hsome
      cases hsome
    · exact hreach hout
  rw [connections_eq_mapM hn hsource, outcome_mapM, mapM_eq_error_iff]
  exact (FirstBad.congr (fun _ => exists_connect_iff) fun _ => connect_eq_missing).trans
    (firstBad_firstSinks hbad (List.forall_mem_nil _))

/-- **The connections of a net with a source.** There is one for each sink, at the place where
the net lists it first, and it is what serves that sink. It runs through the fabric exactly if
the fabric feeds the sink and the driver enters it, and then just these two nodes are
registered, the latter of which is a root of the net. Projecting each driver once comes to the
same. An alternate source is missing exactly if the source does not reach the first sink that
nothing serves, and there is no other. -/
theorem connections_served (hn : p.netlist.net? id = some n) (hsource : n.source = some source) :
    (∀ cs, (p.connections id).outcome = .ok cs ↔
      List.Forall₂ (fun s c => c.index = n.sinks.idxOf s ∧ c.net = id ∧ c.sink = s ∧
        p.Serves n source s c.driver c.ends) n.sinks.eraseDups cs) ∧
    (∀ cs, (p.connections id).outcome = .ok cs →
      (∀ c ∈ cs, c.isDirect = false ↔
        (∃ exit, p.Feeds exit c.sink) ∧ ∃ entry, p.Enters c.driver entry) ∧
      (∀ (es : Entries) (e : End) (x : NodeId),
        x ∈ (registerAll es (p.connections id).events).nodesAt e ↔
          x ∈ es.nodesAt e ∨ ∃ c ∈ cs, ∃ ends, c.ends = some ends ∧ x = ends.node e) ∧
      ∀ roots, p.rootsOfNet id = .ok roots →
        ∀ c ∈ cs, ∀ ends, c.ends = some ends → ends.driver ∈ roots) ∧
    p.connectAll id n source [] ∅ 0 n.sinks = p.connections id ∧
    ∀ name d s, (p.connections id).outcome = .error (.missingAlternateSource name d s) ↔
      ∃ earlier sink later, n.sinks = earlier ++ sink :: later ∧
        (∀ t ∈ earlier, ∃ driver ends, p.Serves n source t driver ends) ∧
        p.OutOfReach source sink ∧ n.alternateSource = none ∧
        name = n.name ∧ d = p.label source ∧ s = p.label sink := by
  refine ⟨fun cs => connections_eq_ok_iff hn hsource, fun cs h => ⟨fun c hc => ?_, ?_, ?_⟩,
    ?_, fun name d s => connections_eq_missing hn hsource⟩
  · obtain ⟨s, -, -, -, rfl, hserves⟩ :=
      exists_left_of_mem ((connections_eq_ok_iff hn hsource).mp h) hc
    exact hserves.isDirect_eq_false
  · intro es e x
    rw [Entries.mem_nodesAt_registerAll, events_connections hn hsource h, List.mem_flatMap]
    simp only [Connection.mem_entries]
  · intro roots hroots c hc ends hends
    refine mem_roots_of_entry h hroots ?_
    rw [← IdSet.mem_def, entryNodes, IdSet.mem_ofList, List.mem_filterMap]
    exact ⟨c, hc, by rw [hends]; rfl⟩
  · rw [connections_eq_mapM hn hsource, connectAll_eq remembers_empty]

/-! ### A carry chain -/

/-- Two sites in a carry chain, each with a pin that meets the fabric. A carry output drives the
next carry input and a sink that is listed twice, once with another source and once without. -/
def carryChain : Placement where
  device := { twoSinks.device with
    sites := #[
      { id := .ofIndex 0, name := "S0", tile := .ofIndex 1, carrySuccessor := some (.ofIndex 1) },
      { id := .ofIndex 1, name := "S1", tile := .ofIndex 2, carrySuccessor := none }] }
  netlist := {
    name := "chain"
    pins := #[
      { id := .ofIndex 0, site := .ofIndex 0, name := "CO", role := .carryOut },
      { id := .ofIndex 1, site := .ofIndex 1, name := "CI", role := .carryIn },
      { id := .ofIndex 2, site := .ofIndex 0, name := "Q", role := .general },
      { id := .ofIndex 3, site := .ofIndex 1, name := "A", role := .general }]
    nets := #[
      { id := .ofIndex 0, name := "sum", kind := .wire, source := some (.ofIndex 0)
        alternateSource := some (.ofIndex 2)
        sinks := [.ofIndex 1, .ofIndex 3, .ofIndex 1, .ofIndex 3] },
      { id := .ofIndex 1, name := "carry", kind := .wire, source := some (.ofIndex 0)
        alternateSource := none
        sinks := [.ofIndex 1, .ofIndex 3] }] }

/-- The carry input is left to dedicated wiring, and the other sink has one connection from the
alternate source. -/
def carryConnections : List Connection := [
  { index := 0, net := .ofIndex 0, driver := .ofIndex 0, sink := .ofIndex 1, ends := none },
  { index := 1, net := .ofIndex 0, driver := .ofIndex 2, sink := .ofIndex 3
    ends := some ⟨.ofIndex 1, .ofIndex 4⟩ }]

/-- The connections of the first net are registered at two nodes, one of them a root. The second
net fails at the sink that its source does not reach. -/
theorem connections_carryChain :
    (carryChain.connections (.ofIndex 0)).outcome = .ok carryConnections ∧
      (∀ (es : Entries) (e : End) (x : NodeId),
        x ∈ (registerAll es (carryChain.connections (.ofIndex 0)).events).nodesAt e ↔
          x ∈ es.nodesAt e ∨ x = (⟨.ofIndex 1, .ofIndex 4⟩ : FabricEnds).node e) ∧
      (∀ roots, carryChain.rootsOfNet (.ofIndex 0) = .ok roots → .ofIndex 1 ∈ roots) ∧
      ∃ sink, carryChain.OutOfReach (.ofIndex 0) sink ∧ carryChain.label sink = "S1/A" := by
  have h : (carryChain.connections (.ofIndex 0)).outcome = .ok carryConnections := by
    decide +kernel
  have hsum : carryChain.netlist.net? (.ofIndex 0) = some carryChain.netlist.nets[0] := rfl
  have hcarry : carryChain.netlist.net? (.ofIndex 1) = some carryChain.netlist.nets[1] := rfl
  obtain ⟨-, hok, -, -⟩ := connections_served hsum rfl
  obtain ⟨-, hentries, hroots⟩ := hok carryConnections h
  refine ⟨h, fun es e x => ?_, fun roots h => hroots roots h _ (.tail _ (.head _)) _ rfl, ?_⟩
  · rw [hentries]
    simp [carryConnections]
  · obtain ⟨-, -, -, hmissing⟩ := connections_served hcarry rfl
    obtain ⟨earlier, sink, later, -, -, hout, -, -, -, hlabel⟩ :=
      (hmissing "carry" "S0/CO" "S1/A").mp (by decide +kernel)
    exact ⟨sink, hout, hlabel.symm⟩

end Placement

end HoldMargin
