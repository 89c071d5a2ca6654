import HoldMargin.Proofs.Bounded
import HoldMargin.Proofs.Drawn
import HoldMargin.Proofs.Moved
import HoldMargin.Proofs.Sketched
import Mathlib.Data.List.Chain
import Mathlib.Data.List.Infix
/-!
# What the rounds on a connection avoid

From round to round the router is asked to avoid more. What it was asked to
avoid it is asked to avoid again, and a round that another one follows adds
something new: only the numbers of nodes to be avoided are compared, but since
nothing is ever taken out, a larger number means a strictly larger set
(`IdSet.ssubset_of_size_lt`). Nodes are added only from the branch that the
round takes out, so whatever the router makes of the net between two rounds, a
connection has one round more than nodes it was asked to avoid, at most
(`Repairer.repair_climbs`).
-/

namespace HoldMargin

/-! ## Sets within sets -/

namespace IdSet

variable {t : Table} {s s' : IdSet t}

theorem subset_union (s : IdSet t) (as : List (TableId t)) : s ⊆ s.union as :=
  subset_iff.mpr fun _ ha => mem_union.mpr (.inl ha)

theorem size_le_of_subset (h : s ⊆ s') : s.size ≤ s'.size :=
  (s.nodup.subperm (subset_iff.mp h)).length_le

/-- A set with more members that has all the old ones is strictly larger. -/
theorem ssubset_of_size_lt (h : s ⊆ s') (hsize : s.size < s'.size) : s ⊂ s' :=
  ⟨h, fun hback => Nat.not_le.mpr hsize (size_le_of_subset hback)⟩

/-- A strictly larger set has more members. -/
theorem size_lt_of_ssubset (h : s ⊂ s') : s.size < s'.size := by
  refine Nat.lt_of_le_of_ne (size_le_of_subset h.1) fun heq => h.2 (subset_iff.mpr fun a ha => ?_)
  have hperm := (s.nodup.subperm (subset_iff.mp h.1)).perm_of_length_le (Nat.le_of_eq heq.symm)
  exact hperm.mem_iff.mpr ha

/-- **A chain of ever larger sets** has no more steps than its last set has
members. -/
theorem length_le_of_isChain {ss : List (IdSet t)} (h : (s :: ss).IsChain (· ⊂ ·)) :
    ∀ last ∈ (s :: ss).getLast?, s.size + ss.length ≤ last.size := by
  induction ss generalizing s with
  | nil => simp
  | cons s' ss ih =>
    intro last hlast
    obtain ⟨hlt, hrest⟩ := List.isChain_cons_cons.mp h
    have hle := ih hrest last (by simpa using hlast)
    have hsize := size_lt_of_ssubset hlt
    rw [List.length_cons]
    omega

end IdSet

/-! ## What may be avoided -/

/-- **A node that a connection may be asked to avoid**: one of the fabric that
may not be passed again and again, and neither a root of the net nor the node
of the sink. -/
structure Placement.MayAvoid (p : Placement) (c : Ranked) (n : NodeId) : Prop where
  isFabric : p.device.isFabric n = true
  kind : ∃ kind, p.device.kindOf? n = some kind ∧ kind.isReusable = false
  not_root : ∃ roots, p.rootsOfNet c.net = .ok roots ∧ n ∉ roots
  not_sink : ∃ target, p.pinNode c.sink = .ok target ∧ n ≠ target

/-- **A node that a round clears**: the branch of the sink, as the round finds
it, has an edge that enters the node. -/
def Round.Clears (rd : Round) (p : Placement) (c : Ranked) (n : NodeId) : Prop :=
  ∃ branch, p.branch rd.before c.net c.sink = .ok branch ∧ n ∈ p.device.entered branch

/-- **Rounds that climb**: each avoids what the one before avoids, and strictly
more if another round follows it; and what a round avoids may be avoided, and
has been cleared in that round or in an earlier one. -/
structure Climbs (p : Placement) (c : Ranked) (rounds : List Round) : Prop where
  keeps : (∅ :: rounds.map Round.avoid).IsChain (· ⊆ ·)
  grows : (∅ :: (rounds.map Round.avoid).dropLast).IsChain (· ⊂ ·)
  avoided : ∀ seen, seen <+: rounds → ∀ rd ∈ seen.getLast?, ∀ n ∈ rd.avoid,
    p.MayAvoid c n ∧ ∃ rd' ∈ seen, rd'.Clears p c n

/-- **Rounds that climb are few**: one more than the last one avoids, at most. -/
theorem Climbs.length_le {p : Placement} {c : Ranked} {rounds : List Round}
    (h : Climbs p c rounds) : ∀ rd ∈ rounds.getLast?, rounds.length ≤ rd.avoid.size + 1 := by
  intro rd hrd
  obtain ⟨earlier, rfl⟩ : ∃ earlier, rounds = earlier ++ [rd] :=
    ⟨_, (List.dropLast_append_getLast? rd hrd).symm⟩
  have hgrows := h.grows
  have hkeeps := h.keeps
  rw [List.map_append, List.map_singleton] at hgrows hkeeps
  rw [List.dropLast_concat] at hgrows
  rw [← List.cons_append] at hkeeps
  obtain ⟨last, hlast⟩ : ∃ last, (∅ :: earlier.map Round.avoid).getLast? = some last :=
    ⟨_, List.getLast?_cons⟩
  -- all sets but the last are ever larger, and the last one is no smaller
  have hchain := IdSet.length_le_of_isChain hgrows last hlast
  have hsize := IdSet.size_le_of_subset
    ((List.isChain_append.mp hkeeps).2.2 last hlast rd.avoid rfl)
  rw [List.length_map] at hchain
  rw [List.length_append, List.length_singleton]
  omega

namespace Placement

variable {p : Placement} {c : Ranked} {kept : NodeSet} {n : NodeId}

/-- Nodes of the fabric have a kind. -/
theorem exists_kindOf?_of_isFabric {d : Device} (h : d.isFabric n = true) :
    ∃ kind, d.kindOf? n = some kind := by
  unfold Device.isFabric Device.tileOf? at h
  unfold Device.kindOf?
  cases hn : d.node? n with
  | none => simp [hn] at h
  | some node => exact ⟨node.kind, rfl⟩

theorem mayAvoid_of_isAvoidable (hkept : p.keptNodes c = .ok kept)
    (h : p.isAvoidable kept n = true) : p.MayAvoid c n := by
  obtain ⟨roots, target, hroots, htarget, hsink⟩ := keptNodes_eq_ok hkept
  simp only [isAvoidable, Bool.and_eq_true, Bool.not_eq_true', decide_eq_true_eq] at h
  obtain ⟨⟨hfabric, hkind⟩, hn⟩ := h
  obtain ⟨kind, hk⟩ := exists_kindOf?_of_isFabric hfabric
  refine ⟨hfabric, ⟨kind, hk, by simpa [hk] using hkind⟩, ⟨roots, hroots, fun hmem => ?_⟩,
    ⟨target, htarget, fun heq => hn (heq ▸ hsink)⟩⟩
  exact hn (mem_keptNodes_of_mem_roots hkept hroots hmem)

end Placement

/-! ## Round by round -/

namespace Repairer

variable {σ : Type} {rp : Repairer σ} {c : Ranked} {kept : NodeSet} {before : Routing}
  {pg pg' : Progress σ} {branch : List EdgeId} {nodes : List NodeId} {rd : Round}
  {reply : RouteReply σ}

/-- **Rounds that have climbed so far**, up to the nodes that are to be avoided
by now. -/
structure Climbed (p : Placement) (c : Ranked) (pg : Progress σ) : Prop where
  climbs : Climbs p c pg.rounds
  last : (∅ :: pg.rounds.map Round.avoid).getLast? = some pg.avoid
  avoided : ∀ n ∈ pg.avoid, p.MayAvoid c n ∧ ∃ rd ∈ pg.rounds, rd.Clears p c n

/-- **Rounds that are still climbing**: all of them have had something new to
avoid, so that another one may follow. -/
structure Climbing (p : Placement) (c : Ranked) (pg : Progress σ) : Prop
    extends Climbed p c pg where
  grown : (∅ :: pg.rounds.map Round.avoid).IsChain (· ⊂ ·)

theorem climbing_start {p : Placement} {state : σ} {r : Routing} :
    Climbing p c { state, routing := r } where
  climbs := ⟨.singleton _, .singleton _, fun seen hseen rd hrd => by
    rw [List.prefix_nil.mp hseen] at hrd
    cases hrd⟩
  last := rfl
  avoided n hn := absurd hn IdSet.not_mem_empty
  grown := .singleton _

/-- **A round adds what it clears** and need not keep. -/
theorem Answered.mem_nodes_iff (h : rp.Answered c kept pg pg' branch nodes rd reply)
    {n : NodeId} :
    n ∈ nodes ↔ rp.placement.isAvoidable kept n = true ∧ rd.Clears rp.placement c n := by
  obtain ⟨branch', hbranch, hplan⟩ := bind_eq_ok.mp h.plan
  obtain ⟨nodes', hnodes, hplan⟩ := bind_eq_ok.mp hplan
  cases hplan
  rw [Placement.mem_nodesToAvoid_iff hnodes, Round.Clears, h.before]
  refine and_congr_right fun _ => ?_
  constructor
  · exact fun hentered => ⟨branch, hbranch, hentered⟩
  · rintro ⟨branch', hbranch', hentered⟩
    rw [hbranch] at hbranch'
    cases hbranch'
    exact hentered

/-- The nodes that a round adds may be avoided, and the round clears them. -/
theorem Answered.mem_nodes (h : rp.Answered c kept pg pg' branch nodes rd reply)
    (hkept : rp.placement.keptNodes c = .ok kept) {n : NodeId} (hn : n ∈ nodes) :
    rp.placement.MayAvoid c n ∧ rd.Clears rp.placement c n :=
  (h.mem_nodes_iff.mp hn).imp_left (Placement.mayAvoid_of_isAvoidable hkept)

theorem Answered.map_avoid (h : rp.Answered c kept pg pg' branch nodes rd reply) :
    pg'.rounds.map Round.avoid = pg.rounds.map Round.avoid ++ [pg'.avoid] := by
  rw [h.rounds, List.map_append, List.map_singleton, h.avoided]

/-- What the rounds avoid goes on with a set that what is to be avoided by now
is related to. -/
theorem Climbed.isChain_concat {p : Placement} (h : Climbed p c pg)
    {R : NodeSet → NodeSet → Prop} {s : NodeSet}
    (hchain : (∅ :: pg.rounds.map Round.avoid).IsChain R) (hnext : R pg.avoid s) :
    (∅ :: (pg.rounds.map Round.avoid ++ [s])).IsChain R := by
  rw [← List.cons_append]
  refine List.isChain_append.mpr ⟨hchain, .singleton _, fun last hlast next hs => ?_⟩
  obtain rfl : pg.avoid = last := by simpa [h.last] using hlast
  obtain rfl : s = next := by simpa using hs
  exact hnext

namespace Climbing

/-- **One more round has climbed as well**, since nothing is taken out of what is
to be avoided. -/
theorem climbed_of_answered (h : Climbing rp.placement c pg)
    (hkept : rp.placement.keptNodes c = .ok kept)
    (ha : rp.Answered c kept pg pg' branch nodes rd reply) : Climbed rp.placement c pg' := by
  have havoided : ∀ n ∈ pg'.avoid, rp.placement.MayAvoid c n ∧
      ∃ rd ∈ pg'.rounds, rd.Clears rp.placement c n := by
    intro n hn
    rw [ha.avoid, IdSet.mem_union] at hn
    rw [ha.rounds]
    rcases hn with hn | hn
    · obtain ⟨hav, rd', hrd', hclears⟩ := h.avoided n hn
      exact ⟨hav, rd', List.mem_append_left _ hrd', hclears⟩
    · obtain ⟨hav, hclears⟩ := ha.mem_nodes hkept hn
      exact ⟨hav, rd, List.mem_append_right _ List.mem_cons_self, hclears⟩
  have hsub : pg.avoid ⊆ pg'.avoid := ha.avoid ▸ IdSet.subset_union _ _
  refine ⟨⟨?_, ?_, ?_⟩, ?_, havoided⟩
  · rw [ha.map_avoid]
    exact h.isChain_concat h.climbs.keeps hsub
  · rw [ha.map_avoid, List.dropLast_concat]
    exact h.grown
  · intro seen hseen rd' hrd' n hn
    rw [ha.rounds] at hseen
    rcases List.prefix_concat_iff.mp hseen with rfl | hseen
    · obtain rfl : rd = rd' := by simpa using hrd'
      rw [ha.avoided] at hn
      exact ha.rounds ▸ havoided n hn
    · exact h.climbs.avoided seen hseen rd' hrd' n hn
  · rw [ha.map_avoid, ← List.cons_append, List.getLast?_concat]

/-- A round of which nothing is kept changes nothing. -/
theorem climbed_of_round {res : RoundResult} (h : Climbing rp.placement c pg)
    (hkept : rp.placement.keptNodes c = .ok kept) (hround : rp.round c kept pg = (pg', res)) :
    Climbed rp.placement c pg' := by
  rcases round_cases hround with ⟨rfl, -⟩ | ⟨branch, nodes, rd, reply, ha, -⟩
  · exact h.toClimbed
  · exact h.climbed_of_answered hkept ha

/-- **A round that had something new to avoid** avoids strictly more than the
one before. -/
theorem of_round {length : Option Nat} (h : Climbing rp.placement c pg)
    (hkept : rp.placement.keptNodes c = .ok kept)
    (hround : rp.round c kept pg = (pg', .rerouted length true)) :
    Climbing rp.placement c pg' := by
  refine ⟨h.climbed_of_round hkept hround, ?_⟩
  have hsize : pg.avoid.size < pg'.avoid.size := by simpa using grew_of_round hround
  rcases round_cases hround with ⟨-, e, -, hno⟩ | ⟨branch, nodes, rd, reply, ha, -⟩
  · cases hno
  have hsub : pg.avoid ⊆ pg'.avoid := ha.avoid ▸ IdSet.subset_union _ _
  rw [ha.map_avoid]
  exact h.isChain_concat h.grown (IdSet.ssubset_of_size_lt hsub hsize)

end Climbing

/-- **The rounds on a connection climb**, whatever the router does to the net
between them. -/
theorem climbs_repairOne {state : σ} {r : Routing} {out : RepairOutcome}
    (h : rp.repairOne c state r = (pg, out)) : Climbs rp.placement c pg.rounds := by
  rcases repairOne_cases h with ⟨e, -, rfl, -⟩ | ⟨kept, hkept, h⟩
  · exact climbing_start.climbs
  have hgive : ∀ (pg : Progress σ) length reason, Climbs rp.placement c pg.rounds →
      Climbs rp.placement c (rp.giveUp c r pg length reason).1.rounds := by
    intro pg length reason hpg
    rwa [rounds_giveUp]
  have hrule : ∀ further pg, Climbing rp.placement c pg →
      Climbs rp.placement c (rp.rounds c kept r pg further).1.rounds := by
    refine rounds_induction (P := fun _ => Climbing rp.placement c)
      (Q := fun x => Climbs rp.placement c x.1.rounds) ?_ ?_ ?_ ?_ ?_ ?_ ?_
    · intro _ pg pg' e hpg hround
      exact (hpg.climbed_of_round hkept hround).climbs
    · intro _ pg pg' hpg hround
      exact hgive pg' _ _ (hpg.climbed_of_round hkept hround).climbs
    · intro _ pg pg' grew hpg hround
      exact hgive pg' _ _ (hpg.climbed_of_round hkept hround).climbs
    · intro _ pg pg' length grew hpg hround _
      exact (hpg.climbed_of_round hkept hround).climbs
    · intro _ pg pg' length hpg hround _
      exact hgive pg' _ _ (hpg.climbed_of_round hkept hround).climbs
    · intro pg pg' length hpg hround _
      exact hgive pg' _ _ (hpg.climbed_of_round hkept hround).climbs
    · intro _ pg pg' length hpg hround _
      exact hpg.of_round hkept hround
  have hclimbs := hrule (rp.settings.repair.maxAttempts - 1) { state, routing := r } climbing_start
  rwa [h] at hclimbs

/-- **Repair climbs, whatever the router does**: what a router that records its
requests has recorded in the end are those of the rounds of all picks, and
the rounds on a connection climb, so there are no more of them than nodes
that the last one avoids, and one. -/
theorem repair_climbs (rp : Repairer σ) (state : σ) (r : Routing) :
    rp.recording.repair (state, []) r =
        { rp.repair state r with
          state := ((rp.repair state r).state,
            (rp.repair state r).picks.flatMap Pick.requests) } ∧
      ∀ pick ∈ (rp.repair state r).picks, Climbs rp.placement pick.candidate pick.rounds ∧
        ∀ rd ∈ pick.rounds.getLast?, pick.rounds.length ≤ rd.avoid.size + 1 := by
  refine ⟨repair_recording rp state r, ?_⟩
  refine picks_rule (I := fun _ => True) state r (fun _ _ => trivial)
    (fun _ _ _ _ _ _ _ => trivial) fun s c rest s' pg out _ _ hp => ?_
  have hclimbs : Climbs rp.placement c pg.rounds := climbs_repairOne hp.repaired
  exact ⟨hclimbs, hclimbs.length_le⟩

end Repairer

/-! ## Three detours -/

namespace Placement

/-- A sink with a short way and three detours, each longer than the one
before. -/
def detours : Placement :=
  sketch [⟨.sitePin, none⟩, ⟨.output, none⟩, ⟨.single, none⟩, ⟨.sitePin, none⟩, ⟨.double, none⟩,
      ⟨.quad, none⟩, ⟨.long, none⟩]
    [(0, 1), (1, 2), (1, 6), (6, 3), (2, 3), (1, 4), (4, 3), (1, 5), (5, 3)] [("A", 3)]

/-- The repair of the short way, which the first two detours are not long enough
for. -/
def repairedDetours : RepairResult Unit :=
  (detours.mazeRepairer {} 1000).repair () (.sketch [0, 1, 4])

theorem avoided_repairedDetours :
    repairedDetours.picks.map (·.rounds.map Round.avoid) =
      [[IdSet.ofList [.ofIndex 2], IdSet.ofList [.ofIndex 2, .ofIndex 4],
        IdSet.ofList [.ofIndex 2, .ofIndex 4, .ofIndex 5]]] := by
  rw [repairedDetours, Repairer.repair_eq_insertionSort]
  decide +kernel

theorem repairedDetours_climbs :
    ∃ pick ∈ repairedDetours.picks, pick.rounds.length = 3 ∧
      Climbs detours pick.candidate pick.rounds ∧
        ∀ rd ∈ pick.rounds.getLast?, 3 ≤ rd.avoid.size + 1 := by
  obtain ⟨pick, hpick⟩ : ∃ pick, repairedDetours.picks = [pick] := by
    have hlength := congrArg List.length avoided_repairedDetours
    rw [List.length_map] at hlength
    exact List.length_eq_one_iff.mp hlength
  have hthree : pick.rounds.length = 3 := by
    have havoided := avoided_repairedDetours
    rw [hpick, List.map_singleton, List.cons.injEq] at havoided
    simpa using congrArg List.length havoided.1
  have hmem : pick ∈ repairedDetours.picks := hpick ▸ List.mem_cons_self
  obtain ⟨hclimbs, hbound⟩ :=
    (Repairer.repair_climbs (detours.mazeRepairer {} 1000) () (.sketch [0, 1, 4])).2 pick hmem
  exact ⟨pick, hmem, hthree, hclimbs, hthree ▸ hbound⟩

end Placement

end HoldMargin
