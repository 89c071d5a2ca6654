import HoldMargin.Proofs.Connected
import HoldMargin.Proofs.Drained
/-!
# Ends that are spared

Repair looks up once, before the first round, which nodes a connection is never asked to
avoid, and for its ends it takes those that the device projects its pins onto. A round asks
to avoid just the other nodes that some round so far has cleared (`Placement.mem_avoid_iff`).
Where the length of a connection is read depends on the route: if it comes to the sink
through another feed than the projected one, that feed is an end of the connection as well,
and it is not spared (`Repairer.repair_spares`).
-/

namespace HoldMargin

namespace Placement

variable {p : Placement} {w : Weighting} {r : Routing} {id : NetId} {m : MeasuredNet}
  {mc : MeasuredConnection} {c : Ranked} {kept : NodeSet} {n : NodeId}

/-! ## What is never avoided -/

/-- **The nodes that are kept**: the roots of the net, the node of the sink, and the nodes that
the pins project onto. -/
theorem mem_keptNodes_iff {roots : NodeSet} {target : NodeId} (h : p.keptNodes c = .ok kept)
    (hroots : p.rootsOfNet c.net = .ok roots) (htarget : p.pinNode c.sink = .ok target) :
    n ∈ kept ↔ n ∈ roots ∨ n = target ∨ p.Feeds n c.sink ∨ p.Enters c.driver n := by
  unfold keptNodes at h
  rw [hroots, htarget] at h
  obtain ⟨_, hr, h⟩ := bind_eq_ok.mp h
  cases hr
  obtain ⟨_, ht, h⟩ := bind_eq_ok.mp h
  cases ht
  obtain ⟨sink, hsink, h⟩ := bind_eq_ok.mp h
  obtain ⟨driver, hdriver, h⟩ := bind_eq_ok.mp h
  cases h
  rw [feeds_iff (pin_eq_ok.mp hsink), enters_iff (pin_eq_ok.mp hdriver)]
  simp only [IdSet.mem_union, IdSet.mem_insert, List.mem_append, Option.mem_toList]
  grind

/-- **Of the nodes that may be avoided, the projected ends are spared.** -/
theorem isAvoidable_iff (h : p.keptNodes c = .ok kept) :
    p.isAvoidable kept n = true ↔
      p.MayAvoid c n ∧ ¬ p.Feeds n c.sink ∧ ¬ p.Enters c.driver n := by
  obtain ⟨roots, target, hroots, htarget, -⟩ := keptNodes_eq_ok h
  have hkept := mem_keptNodes_iff (n := n) h hroots htarget
  constructor
  · intro hav
    have hmay := mayAvoid_of_isAvoidable h hav
    simp only [isAvoidable, Bool.and_eq_true, decide_eq_true_eq] at hav
    exact ⟨hmay, fun hfeeds => hav.2 (hkept.mpr (.inr (.inr (.inl hfeeds)))),
      fun henters => hav.2 (hkept.mpr (.inr (.inr (.inr henters))))⟩
  · rintro ⟨⟨hfabric, ⟨kind, hkind, hreusable⟩, ⟨_, hr, hroot⟩, _, ht, hsink⟩, hfeeds, henters⟩
    rw [hroots] at hr
    cases hr
    rw [htarget] at ht
    cases ht
    have hn : n ∉ kept := by
      rw [hkept]
      grind
    simp [isAvoidable, hfabric, hkind, hreusable, hn]

end Placement

/-! ## Round by round -/

/-- **Rounds that avoid just what they may**: what has been cleared so far and is not kept. -/
def AvoidsCleared (p : Placement) (c : Ranked) (kept : NodeSet) (rounds : List Round) : Prop :=
  ∀ seen, seen <+: rounds → ∀ rd ∈ seen.getLast?, ∀ n,
    n ∈ rd.avoid ↔ p.isAvoidable kept n = true ∧ ∃ rd' ∈ seen, rd'.Clears p c n

namespace Repairer

variable {σ : Type} {rp : Repairer σ} {c : Ranked} {kept : NodeSet} {before : Routing}
  {pg pg' : Progress σ} {branch : List EdgeId} {nodes : List NodeId} {rd : Round}
  {reply : RouteReply σ} {n : NodeId}

/-- Rounds that have avoided just what they may, up to the nodes that are to be avoided by
now. -/
structure AvoidingCleared (p : Placement) (c : Ranked) (kept : NodeSet) (pg : Progress σ) :
    Prop where
  rounds : AvoidsCleared p c kept pg.rounds
  avoided : ∀ n, n ∈ pg.avoid ↔
    p.isAvoidable kept n = true ∧ ∃ rd ∈ pg.rounds, rd.Clears p c n

theorem avoidingCleared_start {p : Placement} {state : σ} {r : Routing} :
    AvoidingCleared p c kept { state, routing := r } where
  rounds seen hseen rd hrd := by
    rw [List.prefix_nil.mp hseen] at hrd
    cases hrd
  avoided n := by simp

theorem AvoidingCleared.of_answered (h : AvoidingCleared rp.placement c kept pg)
    (ha : rp.Answered c kept pg pg' branch nodes rd reply) :
    AvoidingCleared rp.placement c kept pg' := by
  have havoided : ∀ n, n ∈ pg'.avoid ↔ rp.placement.isAvoidable kept n = true ∧
      ∃ rd' ∈ pg'.rounds, rd'.Clears rp.placement c n := by
    intro n
    rw [ha.avoid, IdSet.mem_union, h.avoided, ha.mem_nodes_iff, ← and_or_left, ha.rounds]
    simp only [List.mem_append, List.mem_singleton, or_and_right, exists_or, exists_eq_left]
  refine ⟨fun seen hseen rd' hrd' => ?_, havoided⟩
  rw [ha.rounds] at hseen
  rcases List.prefix_concat_iff.mp hseen with rfl | hseen
  · obtain rfl : rd = rd' := by simpa using hrd'
    rw [ha.avoided]
    exact ha.rounds ▸ havoided
  · exact h.rounds seen hseen rd' hrd'

theorem AvoidingCleared.of_round {res : RoundResult} (h : AvoidingCleared rp.placement c kept pg)
    (hround : rp.round c kept pg = (pg', res)) : AvoidingCleared rp.placement c kept pg' := by
  rcases round_cases hround with ⟨rfl, -⟩ | ⟨branch, nodes, rd, reply, ha, -⟩
  · exact h
  · exact h.of_answered ha

/-- **The rounds on a connection avoid just what they may**, whatever the router. -/
theorem avoidsCleared_repairOne {state : σ} {r : Routing} {out : RepairOutcome}
    (h : rp.repairOne c state r = (pg, out)) :
    pg.rounds = [] ∨
      ∃ kept, rp.placement.keptNodes c = .ok kept ∧
        AvoidsCleared rp.placement c kept pg.rounds := by
  rcases repairOne_cases h with ⟨e, -, rfl, -⟩ | ⟨kept, hkept, h⟩
  · exact .inl rfl
  refine .inr ⟨kept, hkept, ?_⟩
  have hgive : ∀ {pg : Progress σ} {length reason}, AvoidingCleared rp.placement c kept pg →
      AvoidsCleared rp.placement c kept (rp.giveUp c r pg length reason).1.rounds := by
    intro pg length reason hpg
    rw [rounds_giveUp]
    exact hpg.rounds
  have hdone : AvoidsCleared rp.placement c kept (rp.rounds c kept r { state, routing := r }
      (rp.settings.repair.maxAttempts - 1)).1.rounds := rounds_rule
    (P := AvoidingCleared rp.placement c kept)
    (Q := fun x => AvoidsCleared rp.placement c kept x.1.rounds)
    (fun _ _ _ hpg hr => (hpg.of_round hr).rounds)
    (fun _ _ hpg hr => hgive (hpg.of_round hr))
    (fun _ _ _ hpg hr => hgive (hpg.of_round hr))
    (fun _ _ _ _ hpg hr _ => (hpg.of_round hr).rounds)
    (fun _ _ _ _ hpg hr _ => ⟨hpg.of_round hr, fun _ _ => hgive (hpg.of_round hr)⟩)
    { state, routing := r } avoidingCleared_start (rp.settings.repair.maxAttempts - 1)
  rwa [h] at hdone

end Repairer

/-! ## The ends of a picked connection -/

namespace Placement

variable {p : Placement} {w : Weighting} {r : Routing} {id : NetId} {m : MeasuredNet}
  {mc : MeasuredConnection} {c : Ranked} {axis : SkewAxis} {n : NodeId}

/-- **A driver of a net reaches a sink** of it. -/
def Drives (p : Placement) (id : NetId) (driver sink : PinId) : Prop :=
  ∃ n source, p.net id = .ok n ∧ n.source = some source ∧ p.driverOf n source sink = .ok driver

/-- One driver of a net reaches a sink. -/
theorem Drives.unique {driver driver' sink : PinId} (h : p.Drives id driver sink)
    (h' : p.Drives id driver' sink) : driver = driver' := by
  obtain ⟨n, source, hn, hsource, hdriver⟩ := h
  obtain ⟨n', source', hn', hsource', hdriver'⟩ := h'
  rw [hn] at hn'
  cases hn'
  rw [hsource] at hsource'
  cases hsource'
  rw [hdriver] at hdriver'
  cases hdriver'
  rfl

/-- **Where a driver enters the fabric is a root of its net.** -/
theorem Drives.mem_roots {driver sink : PinId} {roots : NodeSet} (h : p.Drives id driver sink)
    (henters : p.Enters driver n) (hroots : p.rootsOfNet id = .ok roots) : n ∈ roots := by
  obtain ⟨net, source, hn, hsource, hdriver⟩ := h
  obtain ⟨pin, hpin, hentry⟩ := henters
  exact (mem_roots_iff (net_eq_ok.mp hn) hroots).mpr
    ⟨driver, mem_drivers_of_driverOf hsource hdriver, pin, hpin, .inr hentry⟩

theorem drives_of_measureNet (h : (p.measureNet w r id).outcome = .ok m)
    (hmc : mc ∈ m.connections) : p.Drives id mc.driver mc.sink := by
  obtain ⟨n, con, hn, hcon, hkey, hdriver⟩ := exists_connection h hmc
  have hsink : mc.sink = con.sink := congrArg NetSink.sink hkey
  obtain ⟨source, hsource, hdrives⟩ := hcon.driver
  exact ⟨n, source, hn, hsource, by rw [hsink, hdriver, hdrives]⟩

/-- A measured connection through the fabric starts where its driver enters. -/
theorem enters_of_measureNet {ends : FabricEnds} (h : (p.measureNet w r id).outcome = .ok m)
    (hmc : mc ∈ m.connections) (hends : mc.ends = some ends) :
    p.Enters mc.driver ends.driver := by
  obtain ⟨cs, n, route, hcs, -, -, -, -, hall⟩ := measureNet_eq_ok h
  obtain ⟨con, hcon, hmeasures⟩ := exists_left_of_mem hall hmc
  have hdriver := hmeasures.driver_ends
  rw [hends, Option.map_some, eq_comm, Option.map_eq_some_iff] at hdriver
  obtain ⟨ends', hsome, hdriver⟩ := hdriver
  obtain ⟨_, -, -, hconn⟩ := connections_eq_ok hcs
  obtain ⟨-, pin, hpin, hentry⟩ := endsOf_eq_ok (hsome ▸ (hconn con hcon).ends)
  rw [hmeasures.driver, ← hdriver]
  exact ⟨pin, pin_eq_ok.mp hpin, hentry⟩

theorem drives_of_atRisk? (h : (p.measureNet w r id).outcome = .ok m) (hmc : mc ∈ m.connections)
    (hc : p.atRisk? axis mc = some c) : p.Drives c.net c.driver c.sink := by
  have hdrives := drives_of_measureNet h hmc
  rw [← net_eq_of_mem h hmc] at hdrives
  rw [atRisk?_eq] at hc
  split at hc
  · cases hc
    exact hdrives
  · cases hc

end Placement

namespace Repairer

variable {σ : Type} {rp : Repairer σ}

/-- **What is picked leads from the driver of the net that reaches the sink.** -/
theorem drives_of_mem_picks (rp : Repairer σ) (state : σ) (r : Routing) :
    ∀ pick ∈ (rp.repair state r).picks,
      rp.placement.Drives pick.candidate.net pick.candidate.driver pick.candidate.sink := by
  refine picks_rule
    (I := fun s => ∀ x ∈ s.queue,
      rp.placement.Drives x.candidate.net x.candidate.driver x.candidate.sink) state r ?_ ?_ ?_
  · intro dm hdm x hx
    obtain ⟨c, hc, rfl⟩ := List.mem_map.mp hx
    obtain ⟨mc, hmc, hrisk⟩ := Ranking.mem_hold.mp hc
    obtain ⟨m, hm, hmc⟩ := List.mem_flatMap.mp hmc
    obtain ⟨id, -, hm⟩ := (Placement.mem_nets_of_measure hdm).mp hm
    exact Placement.drives_of_atRisk? hm hmc hrisk
  · intro s c rest s' hs hnext hpick x hx
    obtain ⟨skipped, y, hqueue, -⟩ := exists_of_next? hnext
    obtain ⟨pg, out, -, ⟨e, -, hno⟩ | ⟨-, ⟨e, -, hno⟩ | ⟨m, hm, -, -, hrequeued⟩⟩⟩ :=
      pick_cases hpick
    · cases hno
    · cases hno
    rw [hrequeued, mem_requeued] at hx
    rcases hx with hx | ⟨-, hx⟩
    · exact hs x (by simp [hqueue, hx])
    · obtain ⟨⟨mc, hmc, hrisk⟩, -⟩ := Tracks.mem_stillAtRisk.mp hx
      exact Placement.drives_of_atRisk? hm hmc hrisk
  · intro s c rest s' pg out hs hnext hp
    obtain ⟨skipped, x, hqueue, -, -, rfl⟩ := exists_of_next? hnext
    exact hs x (by simp [hqueue])

theorem avoidsCleared_of_mem_picks (rp : Repairer σ) (state : σ) (r : Routing) :
    ∀ pick ∈ (rp.repair state r).picks, pick.rounds = [] ∨
      ∃ kept, rp.placement.keptNodes pick.candidate = .ok kept ∧
        AvoidsCleared rp.placement pick.candidate kept pick.rounds := by
  refine picks_rule (I := fun _ => True) state r (fun _ _ => trivial)
    (fun _ _ _ _ _ _ _ => trivial) fun s c rest s' pg out _ _ hp => ?_
  exact avoidsCleared_repairOne hp.repaired

/-- **The ends of a connection that repair spares.** No round asks to avoid where the driver of
its connection enters the fabric, or a node that the sink projects onto. The node at which its
length is read when the round starts is avoided all the same if the sink does not project onto
it, it may be avoided, and a round so far has cleared it. -/
theorem repair_spares (rp : Repairer σ) (state : σ) (r : Routing) :
    ∀ pick ∈ (rp.repair state r).picks, ∀ seen, seen <+: pick.rounds → ∀ rd ∈ seen.getLast?,
      ∀ m mc ends,
        (rp.placement.measureNet rp.settings.weighting rd.before pick.candidate.net).outcome =
          .ok m →
        m.connection? pick.candidate.sink = some mc → mc.ends = some ends →
        ends.driver ∉ rd.avoid ∧
        (∀ n, rp.placement.Feeds n pick.candidate.sink → n ∉ rd.avoid) ∧
        (ends.sink ∈ rd.avoid ↔ ¬ rp.placement.Feeds ends.sink pick.candidate.sink ∧
          rp.placement.MayAvoid pick.candidate ends.sink ∧
          ∃ rd' ∈ seen, rd'.Clears rp.placement pick.candidate ends.sink) := by
  intro pick hpick seen hseen rd hrd m mc ends hm hmc hends
  have hmem : mc ∈ m.connections := List.mem_of_find?_eq_some hmc
  have hsink : mc.sink = pick.candidate.sink := by simpa using List.find?_some hmc
  -- the driver that is measured is the one that was picked
  have hpicked := drives_of_mem_picks rp state r pick hpick
  have hdriver := (hsink ▸ Placement.drives_of_measureNet hm hmem).unique hpicked
  have henters := hdriver ▸ Placement.enters_of_measureNet hm hmem hends
  rcases avoidsCleared_of_mem_picks rp state r pick hpick with hnone | ⟨kept, hkept, havoids⟩
  · rw [hnone, List.prefix_nil] at hseen
    rw [hseen] at hrd
    cases hrd
  have havoided : ∀ n, n ∈ rd.avoid ↔ (rp.placement.MayAvoid pick.candidate n ∧
      ¬ rp.placement.Feeds n pick.candidate.sink ∧
      ¬ rp.placement.Enters pick.candidate.driver n) ∧
      ∃ rd' ∈ seen, rd'.Clears rp.placement pick.candidate n := by
    intro n
    rw [havoids seen hseen rd hrd n, Placement.isAvoidable_iff hkept]
  refine ⟨fun hin => ?_, fun n hfeeds hin => ?_, fun hin => ?_, ?_⟩
  · exact ((havoided _).mp hin).1.2.2 henters
  · exact ((havoided n).mp hin).1.2.1 hfeeds
  · obtain ⟨⟨hmay, hfeeds, -⟩, hclears⟩ := (havoided _).mp hin
    exact ⟨hfeeds, hmay, hclears⟩
  · rintro ⟨hfeeds, hmay, hclears⟩
    refine (havoided _).mpr ⟨⟨hmay, hfeeds, fun hdrives => ?_⟩, hclears⟩
    -- where the driver enters is a root, which may not be avoided
    obtain ⟨roots, hroots, hnot⟩ := hmay.not_root
    exact hnot (hpicked.mem_roots hdrives hroots)

end Repairer

/-! ## Through another feed -/

namespace Placement

/-- The ends of a connection as they are measured. -/
def endsAt (p : Placement) (w : Weighting) (r : Routing) (k : NetSink) : Option FabricEnds :=
  match (p.measureNet w r k.net).outcome with
  | .ok m => (m.connection? k.sink).bind (·.ends)
  | .error _ => none

theorem endsAt_eq_some {p : Placement} {w : Weighting} {r : Routing} {k : NetSink}
    {ends : FabricEnds} (h : p.endsAt w r k = some ends) :
    ∃ m mc, (p.measureNet w r k.net).outcome = .ok m ∧ m.connection? k.sink = some mc ∧
      mc.ends = some ends := by
  unfold endsAt at h
  split at h
  · rename_i m hm
    obtain ⟨mc, hmc, hends⟩ := Option.bind_eq_some_iff.mp h
    exact ⟨m, mc, hm, hmc, hends⟩
  · cases h

/-- What repair makes of a sink that is fed through the node it does not project onto. -/
def repairedOtherFeed : RepairResult Unit :=
  (twoFeeds.mazeRepairer {} 1000).repair () throughOtherFeed

theorem rounds_repairedOtherFeed :
    repairedOtherFeed.picks.map (fun pick => pick.rounds.map fun rd =>
      (twoFeeds.endsAt ({} : Settings).weighting rd.before pick.candidate.key, rd.avoid)) =
      [[(some ⟨.ofIndex 1, .ofIndex 6⟩, IdSet.ofList [.ofIndex 5, .ofIndex 6])]] := by
  rw [repairedOtherFeed, Repairer.repair_eq_insertionSort]
  decide +kernel

theorem exists_round_repairedOtherFeed :
    ∃ pick ∈ repairedOtherFeed.picks, ∃ rd m mc, pick.rounds = [rd] ∧
      rd.avoid = IdSet.ofList [.ofIndex 5, .ofIndex 6] ∧
      (twoFeeds.measureNet ({} : Settings).weighting rd.before pick.candidate.net).outcome =
        .ok m ∧
      m.connection? pick.candidate.sink = some mc ∧
      mc.ends = some ⟨.ofIndex 1, .ofIndex 6⟩ := by
  obtain ⟨pick, hpick, hrounds⟩ :=
    List.mem_map.mp (rounds_repairedOtherFeed ▸ List.mem_singleton_self _)
  obtain ⟨rd, hrd, heq⟩ := List.map_eq_singleton_iff.mp hrounds
  rw [Prod.mk.injEq] at heq
  obtain ⟨m, mc, hm, hmc, hends⟩ := endsAt_eq_some heq.1
  exact ⟨pick, hpick, rd, m, mc, hrd, heq.2, hm, hmc, hends⟩

/-- The driver's end of the connection is not avoided, nor is the node that the sink projects
onto. The feed that the route comes through is. -/
theorem repairedOtherFeed_spares :
    ∃ pick ∈ repairedOtherFeed.picks, ∃ rd, pick.rounds = [rd] ∧ .ofIndex 1 ∉ rd.avoid ∧
      (∀ n, twoFeeds.Feeds n pick.candidate.sink → n ∉ rd.avoid) ∧
      ¬ twoFeeds.Feeds (.ofIndex 6) pick.candidate.sink ∧
      rd.Clears twoFeeds pick.candidate (.ofIndex 6) := by
  obtain ⟨pick, hpick, rd, m, mc, hrounds, havoid, hm, hmc, hends⟩ :=
    exists_round_repairedOtherFeed
  obtain ⟨hdriver, hprojected, hsink⟩ := (twoFeeds.mazeRepairer {} 1000).repair_spares ()
    throughOtherFeed pick hpick [rd] (hrounds ▸ List.prefix_refl _) rd rfl m mc _ hm hmc hends
  have hin : .ofIndex 6 ∈ rd.avoid := by
    rw [havoid]
    decide
  obtain ⟨hfeeds, -, rd', hrd', hclears⟩ := hsink.mp hin
  rw [List.mem_singleton] at hrd'
  exact ⟨pick, hpick, rd, hrounds, hdriver, hprojected, hfeeds, hrd' ▸ hclears⟩

/-- **The node at which a length is read is avoided**, so the ends of a connection are not all
spared. -/
theorem repairedOtherFeed_avoids_feed :
    ∃ pick ∈ repairedOtherFeed.picks, ∃ rd ∈ pick.rounds, ∃ m mc ends,
      (twoFeeds.measureNet ({} : Settings).weighting rd.before pick.candidate.net).outcome =
        .ok m ∧
      m.connection? pick.candidate.sink = some mc ∧ mc.ends = some ends ∧
      ends.sink ∈ rd.avoid := by
  obtain ⟨pick, hpick, rd, m, mc, hrounds, havoid, hm, hmc, hends⟩ :=
    exists_round_repairedOtherFeed
  refine ⟨pick, hpick, rd, hrounds ▸ List.mem_singleton_self rd, m, mc, _, hm, hmc, hends, ?_⟩
  rw [havoid]
  decide

end Placement

end HoldMargin
