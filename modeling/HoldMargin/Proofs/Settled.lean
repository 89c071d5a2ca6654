import HoldMargin.Proofs.Forested
import HoldMargin.Proofs.Steady
import HoldMargin.Proofs.Tracked
/-!
# What a settled session leaves too short

Every connection that a session leaves too short has been picked, if the
session was not stopped and its limit was not reached. Whether one that was
repaired stays long enough is another matter: where the device leads on from
the node of a sink, the repair of another sink may bring a shorter way to
it. If the sinks of the net are dead ends and every way up from them meets
the fabric, the repair of a connection leaves longer ones alone
(`Repairer.KeepsLong`), and what is left too short has been given up on
(`Placement.repair_settled`).
-/

namespace HoldMargin

/-- **A net whose sinks are fed by the fabric**: every way up from one of them
meets it within the hops that are looked at. -/
def Placement.MeetsFabric (p : Placement) (net : NetId) : Prop :=
  ∀ n ∈ p.sinkNodes net, p.device.meetsFabric n projectionReach = true

namespace Repairer

variable {rp : Repairer Unit} {limit : Nat} {c : Ranked} {net : NetId} {kept : NodeSet}
  {before r r' : Routing} {pg pg' : Progress Unit}

/-- A connection that is long enough. -/
def IsLong (rp : Repairer Unit) (r : Routing) (net : NetId) (sink : PinId) : Prop :=
  ∃ m, (rp.placement.measureNet rp.settings.weighting r net).outcome = .ok m ∧
    ∃ length, m.length? sink = some length ∧ rp.threshold ≤ length

/-- A connection that is too short. -/
def IsShort (rp : Repairer Unit) (r : Routing) (net : NetId) (sink : PinId) : Prop :=
  ∃ m, (rp.placement.measureNet rp.settings.weighting r net).outcome = .ok m ∧
    ∃ length, m.length? sink = some length ∧ length < rp.threshold

/-- **What was long enough still is**, on the net at hand. -/
def KeepsLong (rp : Repairer Unit) (net : NetId) (r r' : Routing) : Prop :=
  ∀ sink, rp.IsLong r net sink → rp.IsLong r' net sink

theorem isLong_congr {sink : PinId} (h : r.of net = r'.of net) :
    rp.IsLong r net sink ↔ rp.IsLong r' net sink := by
  unfold IsLong
  rw [Placement.measureNet_congr h]

/-- What has a length leads to a sink of the net. -/
theorem mem_sinks_of_length? {p : Placement} {w : Weighting} {n : Net} {sink : PinId}
    {m : MeasuredNet} {length : Nat} (hm : (p.measureNet w r net).outcome = .ok m)
    (hn : p.netlist.net? net = some n) (h : m.length? sink = some length) : sink ∈ n.sinks := by
  obtain ⟨mc, hmc, -⟩ := Option.bind_eq_some_iff.mp h
  have hsink : mc.sink = sink := by simpa using List.find?_some hmc
  obtain ⟨n', c, hn', hconn, hkey, -⟩ :=
    Placement.exists_connection hm (List.mem_of_find?_eq_some hmc)
  rw [Placement.net_eq_ok, hn, Option.some.injEq] at hn'
  have hsink' : mc.sink = c.sink := congrArg NetSink.sink hkey
  rw [hn', ← hsink, hsink']
  exact hconn.sink

/-- A connection that is long enough is not at risk with a smaller length. -/
theorem IsLong.not_atRisk (h : rp.IsLong r c.net c.sink) (hshort : c.length < rp.threshold) :
    ¬ rp.placement.AtRisk rp.settings r c := by
  intro hrisk
  obtain ⟨m, hm, length, hlength, hlong⟩ := h
  obtain ⟨m', hm', hlength'⟩ := hrisk.length?
  rw [hm, Except.ok.injEq] at hm'
  subst hm'
  rw [hlength, Option.some.injEq] at hlength'
  omega

/-! ## One connection -/

/-- A round that reroutes a connection ends with its net measured. -/
theorem measured_of_round {length : Option Nat} {grew : Bool}
    (hround : rp.round c kept pg = (pg', .rerouted length grew)) :
    ∃ m, (rp.placement.measureNet rp.settings.weighting pg'.routing c.net).outcome = .ok m ∧
      m.length? c.sink = length := by
  rcases round_cases hround with ⟨-, e, -, hno⟩ | ⟨branch, nodes, rd, reply, ha, hres⟩
  · cases hno
  · rcases hres with ⟨e, -, hno⟩ | ⟨e, -, hno⟩ | ⟨-, ⟨e, -, hno⟩ | ⟨m, grew', hm, heq⟩⟩
    · cases hno
    · cases hno
    · cases hno
    · cases heq
      exact ⟨m, by rw [ha.routing, hm], rfl⟩

/-- **A round on a connection that is too short leaves the long ones alone**,
if the net can still be measured. -/
theorem keepsLong_round (hrouter : rp.router = mazeRouter limit)
    (hd : rp.placement.device.Ready) (hkept : rp.placement.keptNodes c = .ok kept)
    (hends : rp.placement.EndsInSinks c.net) (hmeets : rp.placement.MeetsFabric c.net)
    (hs : rp.Sound c kept pg) (hshort : rp.IsShort pg.routing c.net c.sink) {res : RoundResult}
    (hround : rp.round c kept pg = (pg', res)) {m' : MeasuredNet}
    (hm' : (rp.placement.measureNet rp.settings.weighting pg'.routing c.net).outcome = .ok m') :
    rp.KeepsLong c.net pg.routing pg'.routing := by
  rcases round_cases hround with ⟨rfl, -⟩ | ⟨branch, nodes, rd, reply, ha, -⟩
  · exact fun _ h => h
  obtain ⟨n, hn⟩ := net?_of_keptNodes hkept
  obtain ⟨roots, target, hroots, htarget, hmem⟩ := Placement.keptNodes_eq_ok hkept
  have hf := hs.forested c.net n hn
  obtain ⟨path, hmoves, -⟩ := ha.moves hrouter hd hf hroots htarget hmem hs.avoid
  obtain ⟨m, hm, l, hl, hlt⟩ := hshort
  have hsink := mem_sinks_of_length? hm hn hl
  rintro a ⟨ma, hma, k, hk, hlong⟩
  rw [hm, Except.ok.injEq] at hma
  subst hma
  have hasink := mem_sinks_of_length? hm hn hk
  have hafter : rd.after = pg'.routing := by rw [ha.after, ha.routing]
  rw [← ha.before] at hf hm
  rw [← hafter] at hm' ⊢
  refine ⟨m', hm', k, ?_, hlong⟩
  -- the sink in hand is too short, so every long connection is longer
  have htargets := Placement.mem_sinkNodes hn hsink htarget
  exact hmoves.length?_after (hends target htargets) hf hroots htarget (hmeets target htargets)
    (fun node hnode => hends node (Placement.mem_sinkNodes hn hasink hnode)) hm hm' hl hk (by omega)

/-- What is left when a connection is done with, if its net can be measured:
what was long enough still is, and so is the connection if it was repaired. -/
def LeavesLong (rp : Repairer Unit) (c : Ranked) (before : Routing)
    (done : Progress Unit × RepairOutcome) : Prop :=
  ∀ m, (rp.placement.measureNet rp.settings.weighting done.1.routing c.net).outcome = .ok m →
    rp.KeepsLong c.net before done.1.routing ∧
      ∀ length, done.2 = .repaired length → rp.IsLong done.1.routing c.net c.sink

/-- Giving up leaves the long connections alone, if the rounds have. -/
theorem leavesLong_giveUp (length : Option Nat) (reason : RepairFailure)
    (h : ∀ m, (rp.placement.measureNet rp.settings.weighting pg.routing c.net).outcome = .ok m →
      rp.KeepsLong c.net before pg.routing) :
    rp.LeavesLong c before (rp.giveUp c before pg length reason) := by
  rcases giveUp_cases pg length reason with ⟨e, -, heq⟩ | ⟨record, -, -, heq⟩
  · rw [heq]
    exact fun m hm => ⟨h m hm, fun l hl => nomatch hl⟩
  · rw [heq]
    intro m hm
    refine ⟨?_, fun l hl => nomatch hl⟩
    dsimp only at hm ⊢
    -- the route is put back, or it stays as the rounds have left it
    split at hm
    · intro sink hlong
      rw [if_pos ‹_›]
      exact (isLong_congr (by rw [Routing.of_set_self])).mp hlong
    · rw [if_neg ‹_›]
      exact h m hm

/-- **The repair of a connection that is too short leaves the long ones alone**,
and if it succeeds there is one more. -/
theorem leavesLong_repairOne (hrouter : rp.router = mazeRouter limit)
    (hd : rp.placement.device.Ready) (hends : rp.placement.EndsInSinks c.net)
    (hmeets : rp.placement.MeetsFabric c.net) (hbefore : rp.placement.IsForested before)
    (hshort : rp.IsShort before c.net c.sink) (state : Unit) :
    rp.LeavesLong c before (rp.repairOne c state before) := by
  generalize hrep : rp.repairOne c state before = rep
  obtain ⟨pg, out⟩ := rep
  rcases repairOne_cases hrep with ⟨e, -, rfl, rfl⟩ | ⟨kept, hkept, heq⟩
  · intro m hm
    exact ⟨fun _ h => h, fun l hl => nomatch hl⟩
  rw [← heq]
  have hround : ∀ pg pg' res, (rp.Sound c kept pg ∧ rp.IsShort pg.routing c.net c.sink ∧
      rp.KeepsLong c.net before pg.routing) → rp.round c kept pg = (pg', res) →
      ∀ m, (rp.placement.measureNet rp.settings.weighting pg'.routing c.net).outcome = .ok m →
        rp.KeepsLong c.net before pg'.routing := by
    rintro pg pg' res ⟨hs, hsh, hk⟩ hround m hm sink hlong
    exact keepsLong_round hrouter hd hkept hends hmeets hs hsh hround hm sink (hk sink hlong)
  refine rounds_rule
    (P := fun pg => rp.Sound c kept pg ∧ rp.IsShort pg.routing c.net c.sink ∧
      rp.KeepsLong c.net before pg.routing)
    (Q := rp.LeavesLong c before) ?_ ?_ ?_ ?_ ?_ { state, routing := before }
    ⟨⟨hbefore, by simp, by simp⟩, hshort, fun _ h => h⟩ _
  · intro pg pg' e hp hr m hm
    exact ⟨hround pg pg' _ hp hr m hm, fun l hl => nomatch hl⟩
  · exact fun pg pg' hp hr => leavesLong_giveUp _ _ (hround pg pg' _ hp hr)
  · exact fun pg pg' grew hp hr => leavesLong_giveUp _ _ (hround pg pg' _ hp hr)
  · intro pg pg' length grew hp hr hlong m hm
    obtain ⟨m', hm', hlength⟩ := measured_of_round hr
    exact ⟨hround pg pg' _ hp hr m hm, fun _ _ => ⟨m', hm', length, hlength, hlong⟩⟩
  · intro pg pg' length grew hp hr hlt
    obtain ⟨m', hm', hlength⟩ := measured_of_round hr
    exact ⟨⟨(hp.1.round hrouter hd hkept hr).1, ⟨m', hm', length, hlength, hlt⟩,
      hround pg pg' _ hp hr m' hm'⟩, fun _ _ => leavesLong_giveUp _ _ (hround pg pg' _ hp hr)⟩

/-! ## A session -/

/-- **What a session has come to:** every pick was given up on, or its
connection is long enough still, if the sinks of its net are dead ends that
the fabric feeds. -/
structure Settles (rp : Repairer Unit) (s : Session Unit) : Prop where
  tracks : rp.Tracks s
  forested : rp.placement.IsForested s.routing
  lasting : ∀ pick ∈ s.picks, (∃ record, pick.outcome = .abandoned record) ∨
    (rp.placement.EndsInSinks pick.candidate.net → rp.placement.MeetsFabric pick.candidate.net →
      rp.IsLong s.routing pick.candidate.net pick.candidate.sink)

variable {s s' : Session Unit} {rest : List Queued}

/-- **A pick leaves repaired connections long enough.** -/
theorem Settles.of_pick (hrouter : rp.router = mazeRouter limit)
    (hd : rp.placement.device.Ready) (h : rp.Settles s) (hnext : s.next? = some (c, rest))
    (hshort : c.length < rp.threshold) (hpick : rp.pick s c rest = (s', none)) :
    rp.Settles s' := by
  have hconf : rp.router.Confined := hrouter ▸ mazeRouter_confined limit
  have htracks := h.tracks.of_pick hconf hnext hpick
  obtain ⟨pg, out, hp, ⟨e, -, hno⟩ | ⟨hgo, ⟨e, -, hno⟩ | ⟨m, hm, -⟩⟩⟩ := pick_cases hpick
  · cases hno
  · cases hno
  have hforested := hp.isForested hrouter hd h.forested
  have hleft : rp.placement.EndsInSinks c.net → rp.placement.MeetsFabric c.net →
      rp.KeepsLong c.net s.routing s'.routing ∧
        ∀ length, out = .repaired length → rp.IsLong s'.routing c.net c.sink := by
    intro hends hmeets
    obtain ⟨m₀, hm₀, hlength⟩ := (h.tracks.next?_eq_some hnext).1.length?
    have hdone := leavesLong_repairOne (c := c) hrouter hd hends hmeets h.forested
      ⟨m₀, hm₀, c.length, hlength, hshort⟩ s.state
    rw [hp.repaired] at hdone
    rw [hp.routing] at hm ⊢
    exact hdone m hm
  -- earlier picks are long still: this repair leaves them so, or is of another net
  refine ⟨htracks, hforested, fun pick hmem => ?_⟩
  rw [hp.picks] at hmem
  rcases List.mem_append.mp hmem with hmem | hmem
  · refine (h.lasting pick hmem).imp id fun hlong hends hmeets => ?_
    by_cases hnet : pick.candidate.net = c.net
    · rw [hnet] at hends hmeets hlong ⊢
      exact (hleft hends hmeets).1 _ (hlong hends hmeets)
    · have hof : s.routing.of pick.candidate.net = s'.routing.of pick.candidate.net := by
        rw [hp.routing, repairOne_other hconf hp.repaired _ hnet]
      exact (isLong_congr hof).mp (hlong hends hmeets)
  · rw [List.mem_singleton] at hmem
    subst hmem
    cases out with
    | stopped e => exact absurd rfl (hgo e)
    | abandoned record => exact .inl ⟨record, rfl⟩
    | repaired length => exact .inr fun hends hmeets => (hleft hends hmeets).2 length rfl

variable (rp) in
/-- **A session that ends of itself leaves nothing too short that may still be
picked.** -/
theorem settles_run (hrouter : rp.router = mazeRouter limit) (hd : rp.placement.device.Ready)
    (h : rp.Settles s) (hend : (rp.run s).2 = .settled) :
    rp.Settles (rp.run s).1 ∧ ∀ c, rp.placement.AtRisk rp.settings (rp.run s).1.routing c →
      c.key ∈ (rp.run s).1.unpicked → rp.threshold ≤ c.length := by
  refine run_rule (I := rp.Settles)
    (E := fun x => x.2 = .settled → rp.Settles x.1 ∧
      ∀ c, rp.placement.AtRisk rp.settings x.1.routing c → c.key ∈ x.1.unpicked →
        rp.threshold ≤ c.length) ?_ ?_ ?_ ?_ s h hend
  · intro s c rest s' stop hs hnext hshort _ hpick
    cases stop with
    | none => exact hs.of_pick hrouter hd hnext hshort hpick
    | some e => exact fun hno => nomatch hno
  · exact fun s hs hnext _ => ⟨hs, fun c hrisk hun =>
      absurd hun (hs.tracks.next?_eq_none hnext hrisk)⟩
  · intro s c rest hs hnext hlong _
    refine ⟨hs, fun c' hrisk hun => ?_⟩
    -- the next connection is the shortest, and it is long enough
    have hle := (hs.tracks.next?_eq_some hnext).2.2 c' hrisk hun
    exact Nat.le_trans hlong (Ranked.length_le_of_notLonger hle)
  · exact fun s c rest _ _ _ _ hno => nomatch hno

/-- **What is left too short has been picked**, when nothing too short may be
picked any longer, and it was given up on if the sinks of its net are dead
ends that the fabric feeds. -/
theorem Settles.given_up (h : rp.Settles s)
    (hlong : ∀ c, rp.placement.AtRisk rp.settings s.routing c → c.key ∈ s.unpicked →
      rp.threshold ≤ c.length)
    (hrisk : rp.placement.AtRisk rp.settings s.routing c) (hshort : c.length < rp.threshold) :
    (∃ pick ∈ s.picks, pick.candidate.key = c.key) ∧
      ∀ pick ∈ s.picks, pick.candidate.key = c.key →
        rp.placement.EndsInSinks c.net → rp.placement.MeetsFabric c.net →
          ∃ record, pick.outcome = .abandoned record := by
  have hun : c.key ∉ s.unpicked := fun hun => Nat.not_le_of_lt hshort (hlong c hrisk hun)
  rw [h.tracks.unpicked] at hun
  refine ⟨?_, fun pick hmem hkey hends hmeets => ?_⟩
  · by_contra hno
    exact hun ⟨hrisk.offers, fun pick hmem hkey => hno ⟨pick, hmem, hkey⟩⟩
  · rcases h.lasting pick hmem with hrecord | hlasting
    · exact hrecord
    · have hnet : pick.candidate.net = c.net := congrArg NetSink.net hkey
      have hsink : pick.candidate.sink = c.sink := congrArg NetSink.sink hkey
      rw [hnet, hsink] at hlasting
      exact absurd hrisk ((hlasting hends hmeets).not_atRisk hshort)

end Repairer

namespace Placement

variable {p : Placement} {s : Settings} {limit : Nat} {r : Routing} {summary : SessionSummary}

/-- **What a session leaves too short has been picked**, unless the session was
stopped or its limit was reached. If the sinks of the net are dead ends that
the fabric feeds, it has been given up on. -/
theorem repair_settled (hd : p.device.Ready) (hr : p.IsForested r)
    (hok : ((p.mazeRepairer s limit).repair () r).outcome = .ok summary)
    (hlimit : summary.limitReached = false) :
    let result := (p.mazeRepairer s limit).repair () r
    ∃ dm, (p.measure s result.routing).outcome = .ok dm ∧
      ∀ c ∈ (Ranking.hold p s.hold.skewAxis dm.connections).toList,
        c.length < s.hold.minWirelength →
          (∃ pick ∈ result.picks, pick.candidate.key = c.key) ∧
            ∀ pick ∈ result.picks, pick.candidate.key = c.key →
              p.EndsInSinks c.net → p.MeetsFabric c.net →
                ∃ record ∈ summary.abandoned, pick.outcome = .abandoned record := by
  intro result
  rcases (p.mazeRepairer s limit).repair_cases () r with ⟨e, -, -, -, he⟩ | ⟨m, hm, heq⟩
  · rw [he] at hok
    cases hok
  have hfirst : (p.mazeRepairer s limit).Settles
      ((p.mazeRepairer s limit).start () r m (p.measure s r).events) :=
    ⟨Repairer.Tracks.start (p.mazeRepairer s limit) () hm (p.measure s r).events, hr,
      fun pick hpick => nomatch hpick⟩
  dsimp only at heq
  rw [heq] at hok
  rcases Session.finish_eq_ok hok with ⟨hend, rfl⟩ | ⟨-, rfl⟩
  swap
  · cases hlimit
  obtain ⟨hlast, hlong⟩ := Repairer.settles_run (p.mazeRepairer s limit) rfl hd hfirst hend
  have hresult : result = _ := heq
  rw [hresult]
  obtain ⟨dm, hdm⟩ := hlast.tracks.measured
  refine ⟨dm, hdm, fun c hc hshort => ?_⟩
  obtain ⟨hpicked, hgiven⟩ := hlast.given_up hlong ((mem_hold_of_measure hdm).mp hc) hshort
  refine ⟨hpicked, fun pick hmem hkey hends hmeets => ?_⟩
  obtain ⟨record, hrecord⟩ := hgiven pick hmem hkey hends hmeets
  exact ⟨record, List.mem_filterMap.mpr ⟨pick, hmem, by rw [hrecord]⟩, hrecord⟩

instance {p : Placement} {net : NetId} : Decidable (p.MeetsFabric net) :=
  inferInstanceAs
    (Decidable (∀ n ∈ p.sinkNodes net, p.device.meetsFabric n projectionReach = true))

/-- Of two sinks that are dead ends one is left too short, and it has been given
up on. -/
theorem repairedShortWays_settled :
    twoSinks.EndsInSinks (.ofIndex 0) ∧ twoSinks.MeetsFabric (.ofIndex 0) ∧
      ∃ pick ∈ repairedShortWays.picks,
        pick.candidate.key = { net := .ofIndex 0, sink := .ofIndex 2 } ∧
          ∃ record, pick.outcome = .abandoned record := by
  have hends : twoSinks.EndsInSinks (.ofIndex 0) := by decide +kernel
  have hmeets : twoSinks.MeetsFabric (.ofIndex 0) := by decide +kernel
  obtain ⟨dm, hdm, hall⟩ :=
    repair_settled ready_twoSinks isForested_shortWays outcome_repairedShortWays rfl
  obtain ⟨dm', hdm', hmem⟩ : ∃ dm,
      (twoSinks.measure {} repairedShortWays.routing).outcome = .ok dm ∧
      { length := 10, net := .ofIndex 0, sink := .ofIndex 2, driver := .ofIndex 0 } ∈
        (Ranking.hold twoSinks .column dm.connections).toList := by
    refine exists_mem_hold ?_
    rw [repairedShortWays, Repairer.repair_eq_insertionSort]
    decide +kernel
  have hsame : dm' = dm := Except.ok.inj (hdm'.symm.trans hdm)
  obtain ⟨⟨pick, hpick, hkey⟩, hgiven⟩ := hall _ (hsame ▸ hmem) (by decide)
  obtain ⟨record, -, hrecord⟩ := hgiven pick hpick hkey hends hmeets
  exact ⟨hends, hmeets, pick, hpick, hkey, record, hrecord⟩

/-! ### A sink on the way to another one

The second sink is routed through the node of the first one. When the first
sink is taken off its way, its node is still at an end of what is left of
the route, so the router takes it for a source and has nothing to commit;
the length is then read at the long way, which the route does not take. The
repair of the second sink commits the short way again. -/

/-- Two sinks, the first on a way to the second, with a long way to each. -/
def sinkBetween : Placement :=
  sketch [⟨.sitePin, none⟩, ⟨.output, none⟩, ⟨.single, none⟩, ⟨.sitePin, none⟩, ⟨.sitePin, none⟩,
      ⟨.sitePin, none⟩, ⟨.sitePin, none⟩, ⟨.long, none⟩, ⟨.pinFeed, none⟩, ⟨.sitePin, some 50⟩,
      ⟨.single, none⟩, ⟨.sitePin, some 50⟩]
    [(0, 1), (1, 2), (8, 9), (9, 4), (2, 3), (3, 4), (4, 5), (10, 11), (11, 6), (5, 6), (1, 7),
      (7, 8), (1, 10)] [("A", 4), ("X", 6)]

/-- Both sinks routed on one way, beside others that are not taken to an
end. -/
def wayBetween : Routing := .sketch [0, 1, 4, 5, 6, 9, 10, 11, 12]

/-- What repair makes of the one way. -/
def repairedWayBetween : RepairResult Unit :=
  (sinkBetween.mazeRepairer {} 1000).repair () wayBetween

/-- **A repaired connection may end up too short**: the first sink counts as
repaired, and is at risk with the length it had at the start. -/
theorem repairedWayBetween_too_short :
    sinkBetween.device.Ready ∧ sinkBetween.IsForested wayBetween ∧
      repairedWayBetween.outcome = .ok {
        repaired := 1
        abandoned := [{
          net := "n", driver := "S0/Q", sink := "S1/X", lengthBefore := 10, lengthAfter := some 10
          attempts := 1, reason := .nothingToAvoid, restored := false }]
        processed := 2
        attempts := 2
        limitReached := false } ∧
      (∃ pick ∈ repairedWayBetween.picks,
        pick.candidate.key = { net := .ofIndex 0, sink := .ofIndex 1 } ∧
          pick.outcome matches .repaired _) ∧
      ∃ dm, (sinkBetween.measure {} repairedWayBetween.routing).outcome = .ok dm ∧
        { length := 10, net := .ofIndex 0, sink := .ofIndex 1, driver := .ofIndex 0 } ∈
          (Ranking.hold sinkBetween .column dm.connections).toList := by
  have hdescends : sinkBetween.device.Descends (wayBetween.of (.ofIndex 0)) := by decide +kernel
  refine ⟨Device.ready_reindex (by decide +kernel), isForested_sketch hdescends, ?_, ?_,
    exists_mem_hold ?_⟩
  all_goals
    rw [repairedWayBetween, Repairer.repair_eq_insertionSort]
    decide +kernel

/-! ### Sinks too far below the fabric

The first sink is rerouted by a way that leaves the fabric more hops ahead
of it than are looked at, so its length is read at the node it projects
onto, which it is not routed through. The second sink is routed through
that node, and takes it along; with the third one the node comes back, by a
shorter way. -/

/-- Three dead-end sinks, two of which may be reached by ways that leave the
fabric early. -/
def farBelow : Placement :=
  sketch [⟨.sitePin, none⟩, ⟨.output, none⟩, ⟨.single, none⟩, ⟨.sitePin, none⟩, ⟨.sitePin, none⟩,
      ⟨.long, none⟩, ⟨.single, none⟩, ⟨.sitePin, some 1000⟩, ⟨.single, none⟩, ⟨.sitePin, none⟩,
      ⟨.sitePin, none⟩, ⟨.sitePin, none⟩, ⟨.sitePin, none⟩, ⟨.sitePin, none⟩, ⟨.sitePin, none⟩,
      ⟨.sitePin, none⟩, ⟨.sitePin, none⟩, ⟨.sitePin, none⟩, ⟨.sitePin, none⟩, ⟨.sitePin, none⟩,
      ⟨.single, none⟩, ⟨.sitePin, none⟩, ⟨.single, none⟩, ⟨.sitePin, none⟩, ⟨.single, none⟩,
      ⟨.long, none⟩]
    [(7, 4), (6, 7), (0, 1), (1, 2), (2, 3), (3, 4), (1, 5), (5, 6), (1, 8), (8, 9), (9, 10),
      (10, 11), (11, 12), (12, 13), (13, 4), (6, 14), (14, 15), (15, 16), (16, 17), (17, 18),
      (18, 19), (1, 20), (20, 21), (21, 19), (25, 23), (1, 22), (22, 23), (1, 24), (24, 6), (6, 25)]
    [("A", 4), ("X", 19), ("Y", 23)]

/-- The first and the last sink routed on their short ways, the second one
through the node that the first one projects onto. -/
def farWays : Routing := .sketch [2, 3, 4, 5, 6, 7, 15, 16, 17, 18, 19, 20, 21, 25, 26]

/-- What repair makes of the far ways. -/
def repairedFarWays : RepairResult Unit := (farBelow.mazeRepairer {} 1000).repair () farWays

/-- **That the fabric feeds the sinks cannot be left out:** the first sink, a
dead end, counts as repaired and is at risk with a smaller length. -/
example :
    farBelow.device.Ready ∧ farBelow.IsForested farWays ∧ farBelow.EndsInSinks (.ofIndex 0) ∧
      repairedFarWays.outcome = .ok {
        repaired := 2
        abandoned := [{
          net := "n", driver := "S0/Q", sink := "S1/X", lengthBefore := 10, lengthAfter := some 10
          attempts := 2, reason := .nothingToAvoid, restored := false }]
        processed := 3
        attempts := 4
        limitReached := false } ∧
      (∃ pick ∈ repairedFarWays.picks,
        pick.candidate.key = { net := .ofIndex 0, sink := .ofIndex 1 } ∧
          pick.outcome matches .repaired _) ∧
      ∃ dm, (farBelow.measure {} repairedFarWays.routing).outcome = .ok dm ∧
        { length := 20, net := .ofIndex 0, sink := .ofIndex 1, driver := .ofIndex 0 } ∈
          (Ranking.hold farBelow .column dm.connections).toList := by
  have hdescends : farBelow.device.Descends (farWays.of (.ofIndex 0)) := by decide +kernel
  refine ⟨Device.ready_reindex (by decide +kernel), isForested_sketch hdescends,
    by decide +kernel, ?_, ?_, exists_mem_hold ?_⟩
  all_goals
    rw [repairedFarWays, Repairer.repair_eq_insertionSort]
    decide +kernel

end Placement

end HoldMargin
