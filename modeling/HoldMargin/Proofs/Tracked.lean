import HoldMargin.Proofs.Loops
import HoldMargin.Proofs.Measured
import Mathlib.Data.List.TakeWhile
/-!
# What the queue of a session says

The queue is never cleared: what was queued for a net before it was measured
again stays behind, and so does what has been picked. `Repairer.Tracks` says
that this does no harm. Of the connections that may still be picked, those
that are queued in the generation of their net are the ones that measuring
the design at hand finds at risk, so the first entry that counts is the
shortest of them (`Tracks.next?_eq_some`). A pick keeps it that way
(`Tracks.of_continues`), provided that the router leaves other nets alone
(`Tracks.of_pick`).
-/

namespace HoldMargin

/-! ## The ascending queue -/

/-- What is ranked before a connection is not longer. -/
theorem Ranked.length_le_of_notLonger {a b : Ranked} (h : a.notLonger b) :
    a.length ≤ b.length := by
  have hcompare : ((compare a.length b.length).then ((compare a.net b.net).then
      ((compare a.sink b.sink).then (compare a.driver b.driver)))).isLE := h
  by_contra hlt
  rw [Nat.compare_eq_gt.mpr (Nat.lt_of_not_le hlt)] at hcompare
  cases hcompare

namespace Queued

variable {x y : Queued} {queue : List Queued}

theorem mem_enqueue : y ∈ enqueue x queue ↔ y = x ∨ y ∈ queue := by
  induction queue with
  | nil => simp [enqueue]
  | cons z zs ih =>
    rw [enqueue]
    split
    · simp
    · simp only [List.mem_cons, ih]
      grind

/-- A queue is ascending if no entry is before a shorter one. -/
def Ascending (queue : List Queued) : Prop :=
  queue.Pairwise fun x y => x.candidate.notLonger y.candidate

theorem ascending_enqueue (h : Ascending queue) : Ascending (enqueue x queue) := by
  induction queue with
  | nil => exact List.pairwise_singleton _ _
  | cons y ys ih =>
    obtain ⟨hy, hys⟩ := List.pairwise_cons.mp h
    rw [enqueue]
    split
    · rename_i hxy
      refine List.pairwise_cons.mpr ⟨fun z hz => ?_, h⟩
      rcases List.mem_cons.mp hz with rfl | hz
      · exact hxy
      · exact Ranked.notLonger_trans _ _ _ hxy (hy z hz)
    · rename_i hxy
      refine List.pairwise_cons.mpr ⟨fun z hz => ?_, ih hys⟩
      rcases mem_enqueue.mp hz with rfl | hz
      · have htotal := Ranked.notLonger_total z.candidate y.candidate
        rw [Bool.or_eq_true] at htotal
        exact htotal.resolve_left hxy
      · exact hy z hz

end Queued

namespace Repairer

variable {σ : Type} {rp : Repairer σ}

theorem mem_requeued {unpicked : List NetSink} {queue : List Queued} {generation : Nat}
    {m : MeasuredNet} {x : Queued} :
    x ∈ rp.requeued unpicked queue generation m ↔
      x ∈ queue ∨ x.generation = generation ∧ x.candidate ∈ rp.stillAtRisk unpicked m := by
  unfold requeued
  generalize rp.stillAtRisk unpicked m = cs
  induction cs generalizing queue with
  | nil => simp
  | cons c cs ih =>
    rw [List.foldl_cons, ih, Queued.mem_enqueue, List.mem_cons]
    constructor
    · rintro ((rfl | hx) | ⟨hg, hx⟩)
      · exact .inr ⟨rfl, .inl rfl⟩
      · exact .inl hx
      · exact .inr ⟨hg, .inr hx⟩
    · rintro (hx | ⟨hg, rfl | hx⟩)
      · exact .inl (.inr hx)
      · exact .inl (.inl (by rw [← hg]))
      · exact .inr ⟨hg, hx⟩

theorem ascending_requeued {unpicked : List NetSink} {queue : List Queued} {generation : Nat}
    {m : MeasuredNet} (h : Queued.Ascending queue) :
    Queued.Ascending (rp.requeued unpicked queue generation m) := by
  unfold requeued
  generalize rp.stillAtRisk unpicked m = cs
  induction cs generalizing queue with
  | nil => exact h
  | cons c cs ih => exact ih (Queued.ascending_enqueue h)

/-! ## Other nets -/

/-- **Repairing a connection leaves the other nets alone**, if the router
does. -/
theorem repairOne_other (hconf : rp.router.Confined) {c : Ranked} {state : σ} {r : Routing}
    {pg : Progress σ} {out : RepairOutcome} (h : rp.repairOne c state r = (pg, out)) :
    ∀ other, other ≠ c.net → pg.routing.of other = r.of other := by
  rcases repairOne_cases h with ⟨-, -, rfl, -⟩ | ⟨kept, -, h⟩
  · exact fun _ _ => rfl
  · have hstep : ∀ pg pg' res, (∀ other, other ≠ c.net → pg.routing.of other = r.of other) →
        rp.round c kept pg = (pg', res) →
        ∀ other, other ≠ c.net → pg'.routing.of other = r.of other := by
      intro pg pg' res hpg hround other hother
      rcases round_cases hround with ⟨rfl, -⟩ | ⟨branch, nodes, rd, reply, ha, -⟩
      · exact hpg other hother
      · rw [ha.routing, ha.asked, hconf _ _ _ _ _ hother, ha.cut, Routing.of_set, if_neg hother]
        exact hpg other hother
    have hgive : ∀ (pg : Progress σ) length reason,
        (∀ other, other ≠ c.net → pg.routing.of other = r.of other) →
        ∀ other, other ≠ c.net →
          (rp.giveUp c r pg length reason).1.routing.of other = r.of other := by
      intro pg length reason hpg other hother
      rcases giveUp_cases pg length reason with ⟨e, -, heq⟩ | ⟨record, -, -, heq⟩
      · rw [heq]
        exact hpg other hother
      · rw [heq]
        dsimp only
        split
        · rw [Routing.of_set, if_neg hother]
          exact hpg other hother
        · exact hpg other hother
    have hrule := rounds_rule
      (P := fun pg => ∀ other, other ≠ c.net → pg.routing.of other = r.of other)
      (Q := fun x => ∀ other, other ≠ c.net → x.1.routing.of other = r.of other)
      (fun pg pg' e hpg hr => hstep pg pg' _ hpg hr)
      (fun pg pg' hpg hr => hgive pg' _ _ (hstep pg pg' _ hpg hr))
      (fun pg pg' _ hpg hr => hgive pg' _ _ (hstep pg pg' _ hpg hr))
      (fun pg pg' _ _ hpg hr _ => hstep pg pg' _ hpg hr)
      (fun pg pg' _ _ hpg hr _ => ⟨hstep pg pg' _ hpg hr,
        fun _ _ => hgive pg' _ _ (hstep pg pg' _ hpg hr)⟩)
      { state, routing := r } (fun _ _ => rfl) (rp.settings.repair.maxAttempts - 1)
    rw [h] at hrule
    exact hrule

/-! ## The queue of a session -/

/-- **The queue keeps track of the design**, as far as connections may still be
picked. -/
structure Tracks (rp : Repairer σ) (s : Session σ) : Prop where
  measured : ∃ dm, (rp.placement.measure rp.settings s.routing).outcome = .ok dm
  ascending : Queued.Ascending s.queue
  /-- Nothing is queued in a generation that is still to come. -/
  bounded : ∀ x ∈ s.queue, x.generation ≤ s.generation x.candidate.net
  current : ∀ c, c.key ∈ s.unpicked →
    ((∃ x ∈ s.queue, x.candidate = c ∧ x.generation = s.generation c.net) ↔
      rp.placement.AtRisk rp.settings s.routing c)
  unpicked : ∀ k, k ∈ s.unpicked ↔
    rp.placement.Offers rp.settings k ∧ ∀ pick ∈ s.picks, pick.candidate.key ≠ k

variable {s s' : Session σ} {c : Ranked} {rest : List Queued}

theorem isCurrent_iff {x : Queued} :
    s.isCurrent x = true ↔
      x.generation = s.generation x.candidate.net ∧ x.candidate.key ∈ s.unpicked := by
  simp [Session.isCurrent]

/-- The entries that are passed over do not count, and the next one does. -/
theorem exists_of_next? (h : s.next? = some (c, rest)) :
    ∃ skipped x, s.queue = skipped ++ x :: rest ∧ (∀ y ∈ skipped, s.isCurrent y = false) ∧
      s.isCurrent x = true ∧ x.candidate = c := by
  unfold Session.next? at h
  split at h
  · cases h
  · rename_i x rest' hdrop
    cases h
    refine ⟨s.queue.takeWhile (!s.isCurrent ·), x, ?_, fun y hy => ?_, ?_, rfl⟩
    · rw [← hdrop, List.takeWhile_append_dropWhile]
    · simpa using List.mem_takeWhile_imp hy
    · have hhead := List.head?_dropWhile_not (fun y => !s.isCurrent y) s.queue
      simpa [hdrop] using hhead

namespace Tracks

/-- An entry that counts is at risk, and what is at risk has an entry that
counts, unless it has been picked. -/
theorem exists_current_iff (h : rp.Tracks s) :
    (∃ x ∈ s.queue, x.candidate = c ∧ s.isCurrent x = true) ↔
      rp.placement.AtRisk rp.settings s.routing c ∧ c.key ∈ s.unpicked := by
  constructor
  · rintro ⟨x, hx, rfl, hcur⟩
    obtain ⟨hgen, hun⟩ := isCurrent_iff.mp hcur
    exact ⟨(h.current _ hun).mp ⟨x, hx, rfl, hgen⟩, hun⟩
  · rintro ⟨hrisk, hun⟩
    obtain ⟨x, hx, rfl, hgen⟩ := (h.current c hun).mpr hrisk
    exact ⟨x, hx, rfl, isCurrent_iff.mpr ⟨hgen, hun⟩⟩

/-- **A session is out of entries only when nothing is left to pick.** -/
theorem next?_eq_none (h : rp.Tracks s) (hnext : s.next? = none)
    (hrisk : rp.placement.AtRisk rp.settings s.routing c) : c.key ∉ s.unpicked := by
  intro hun
  obtain ⟨x, hx, -, hcur⟩ := h.exists_current_iff.mpr ⟨hrisk, hun⟩
  unfold Session.next? at hnext
  split at hnext
  · rename_i hdrop
    have hno := List.dropWhile_eq_nil_iff.mp hdrop x hx
    rw [hcur] at hno
    cases hno
  · cases hnext

/-- **The next connection is the shortest one at risk** that may still be
picked. -/
theorem next?_eq_some (h : rp.Tracks s) (hnext : s.next? = some (c, rest)) :
    rp.placement.AtRisk rp.settings s.routing c ∧ c.key ∈ s.unpicked ∧
      ∀ c', rp.placement.AtRisk rp.settings s.routing c' → c'.key ∈ s.unpicked →
        c.notLonger c' := by
  obtain ⟨skipped, x, hqueue, hskip, hcur, rfl⟩ := exists_of_next? hnext
  have hx : x ∈ s.queue := by simp [hqueue]
  obtain ⟨hrisk, hun⟩ := h.exists_current_iff.mp ⟨x, hx, rfl, hcur⟩
  refine ⟨hrisk, hun, fun c' hrisk' hun' => ?_⟩
  obtain ⟨y, hy, rfl, hcur'⟩ := h.exists_current_iff.mpr ⟨hrisk', hun'⟩
  have hsorted := h.ascending
  rw [hqueue] at hy hsorted
  -- nothing counts before the next entry, and none behind it is shorter
  have hrest := (List.pairwise_cons.mp (List.pairwise_append.mp hsorted).2.1).1
  rcases List.mem_append.mp hy with hy | hy
  · rw [hskip y hy] at hcur'
    cases hcur'
  · rcases List.mem_cons.mp hy with rfl | hy
    · simpa using Ranked.notLonger_total y.candidate y.candidate
    · exact hrest y hy

/-- The queue behind the next connection still has all that count for other
connections. -/
theorem mem_rest (hnext : s.next? = some (c, rest)) {x : Queued} (hx : x ∈ s.queue)
    (hcur : s.isCurrent x = true) (hne : x.candidate ≠ c) : x ∈ rest := by
  obtain ⟨skipped, y, hqueue, hskip, -, rfl⟩ := exists_of_next? hnext
  rw [hqueue] at hx
  rcases List.mem_append.mp hx with hx | hx
  · rw [hskip x hx] at hcur
    cases hcur
  · rcases List.mem_cons.mp hx with rfl | hx
    · exact absurd rfl hne
    · exact hx

/-! ## A pick -/

theorem mem_stillAtRisk {unpicked : List NetSink} {m : MeasuredNet} {c' : Ranked} :
    c' ∈ rp.stillAtRisk unpicked m ↔
      (∃ mc ∈ m.connections, rp.placement.atRisk? rp.settings.hold.skewAxis mc = some c') ∧
        c'.key ∈ unpicked := by
  simp [stillAtRisk, List.mem_filter, List.mem_filterMap]

end Tracks

/-- **A pick that a session goes on from**: other nets are as before, and the net
at hand has been measured again and is in a new generation. -/
structure Continues (rp : Repairer σ) (s : Session σ) (c : Ranked) (rest : List Queued)
    (s' : Session σ) (m : MeasuredNet) : Prop where
  other : ∀ net, net ≠ c.net → s'.routing.of net = s.routing.of net
  measured : (rp.placement.measureNet rp.settings.weighting s'.routing c.net).outcome = .ok m
  generation : ∀ net, s'.generation net =
    if net = c.net then s.generation c.net + 1 else s.generation net
  queue : s'.queue = rp.requeued s'.unpicked rest (s.generation c.net + 1) m
  unpicked : ∀ k, k ∈ s'.unpicked ↔ k ∈ s.unpicked ∧ k ≠ c.key
  picks : ∃ pick, s'.picks = s.picks ++ [pick] ∧ pick.candidate = c

/-- A pick that a session goes on from, with the routings before and after it
as far as they are known: other nets are as before, and the net at hand is as
the pick leaves it. -/
theorem continues_of_known {r r' : Routing} (hpick : rp.pick s c rest = (s', none))
    (hother : ∀ net, net ≠ c.net → r'.of net = r.of net)
    (hnet : r'.of c.net = s'.routing.of c.net) :
    ∃ m, rp.Continues { s with routing := r } c rest { s' with routing := r' } m := by
  obtain ⟨pg, out, hp, ⟨e, -, hno⟩ | ⟨-, ⟨e, -, hno⟩ | ⟨m, hm, -, hgens, hqueue⟩⟩⟩ :=
    pick_cases hpick
  · cases hno
  · cases hno
  refine ⟨m, hother, ?_, fun net => ?_, hqueue, fun k => ?_, ?_⟩
  · rw [Placement.measureNet_congr hnet, hm]
  · unfold Session.generation
    rw [hgens, IdMap.get?_insert]
    split <;> rfl
  · simp [hp.unpicked]
  · exact ⟨_, hp.picks, rfl⟩

theorem continues_of_pick (hconf : rp.router.Confined) (hpick : rp.pick s c rest = (s', none)) :
    ∃ m, rp.Continues s c rest s' m := by
  refine continues_of_known hpick (fun net hne => ?_) rfl
  obtain ⟨pg, out, hp, -⟩ := pick_cases hpick
  rw [hp.routing]
  exact repairOne_other hconf hp.repaired net hne

namespace Continues

variable {m : MeasuredNet} {x : Queued}

theorem mem_queue (h : rp.Continues s c rest s' m) :
    x ∈ s'.queue ↔ x ∈ rest ∨
      x.generation = s.generation c.net + 1 ∧ x.candidate ∈ rp.stillAtRisk s'.unpicked m := by
  rw [h.queue, mem_requeued]

/-- What is still at risk belongs to the net at hand. -/
theorem net_of_stillAtRisk (h : rp.Continues s c rest s' m) {c' : Ranked}
    (hc : c' ∈ rp.stillAtRisk s'.unpicked m) : c'.net = c.net := by
  obtain ⟨⟨mc, hmc, hat⟩, -⟩ := Tracks.mem_stillAtRisk.mp hc
  exact (Placement.atRisk?_eq_some hat).1.trans (Placement.net_eq_of_mem h.measured hmc)

/-- Nothing is queued in a generation that is still to come. -/
theorem bounded (h : rp.Continues s c rest s' m) (ht : rp.Tracks s)
    (hrest : ∀ x ∈ rest, x ∈ s.queue) (hx : x ∈ s'.queue) :
    x.generation ≤ s'.generation x.candidate.net := by
  rw [h.generation]
  rcases h.mem_queue.mp hx with hx | ⟨hxg, hx⟩
  · have hle := ht.bounded x (hrest x hx)
    split
    · rename_i hnet
      rw [hnet] at hle
      omega
    · exact hle
  · rw [h.net_of_stillAtRisk hx, if_pos rfl, hxg]

/-- Of the net at hand, what counts is what has been measured just now. -/
theorem current_of_net_eq (h : rp.Continues s c rest s' m) (ht : rp.Tracks s)
    (hrest : ∀ x ∈ rest, x ∈ s.queue) {c' : Ranked} (hun : c'.key ∈ s'.unpicked)
    (hnet : c'.net = c.net) :
    (∃ x ∈ s'.queue, x.candidate = c' ∧ x.generation = s'.generation c'.net) ↔
      rp.placement.AtRisk rp.settings s'.routing c' := by
  rw [h.generation, if_pos hnet]
  constructor
  · rintro ⟨x, hx, rfl, hxg⟩
    rcases h.mem_queue.mp hx with hx | ⟨-, hx⟩
    · -- what was queued before is of an earlier generation
      have hle := ht.bounded x (hrest x hx)
      rw [hnet] at hle
      omega
    · obtain ⟨⟨mc, hmc, hat⟩, -⟩ := Tracks.mem_stillAtRisk.mp hx
      have hoffers := ((ht.unpicked _).mp ((h.unpicked _).mp hun).1).1
      exact ⟨hoffers.1, m, hnet ▸ h.measured, mc, hmc, hat⟩
  · rintro ⟨-, m', hm', mc, hmc, hat⟩
    rw [hnet, h.measured, Except.ok.injEq] at hm'
    subst hm'
    exact ⟨{ candidate := c', generation := s.generation c.net + 1 },
      h.mem_queue.mpr (.inr ⟨rfl, Tracks.mem_stillAtRisk.mpr ⟨⟨mc, hmc, hat⟩, hun⟩⟩), rfl, rfl⟩

/-- Of other nets, what counted before counts still. -/
theorem current_of_net_ne (h : rp.Continues s c rest s' m) (ht : rp.Tracks s)
    (hnext : s.next? = some (c, rest)) (hrest : ∀ x ∈ rest, x ∈ s.queue) {c' : Ranked}
    (hun : c'.key ∈ s'.unpicked) (hnet : c'.net ≠ c.net) :
    (∃ x ∈ s'.queue, x.candidate = c' ∧ x.generation = s'.generation c'.net) ↔
      rp.placement.AtRisk rp.settings s'.routing c' := by
  have hun' := ((h.unpicked _).mp hun).1
  rw [h.generation, if_neg hnet, Placement.atRisk_congr (h.other _ hnet), ← ht.current c' hun']
  constructor
  · rintro ⟨x, hx, rfl, hxg⟩
    rcases h.mem_queue.mp hx with hx | ⟨-, hx⟩
    · exact ⟨x, hrest x hx, rfl, hxg⟩
    · exact absurd (h.net_of_stillAtRisk hx) hnet
  · rintro ⟨x, hx, rfl, hxg⟩
    -- the entry is of another net, so it is not the one that was picked
    have hmem := Tracks.mem_rest hnext hx (isCurrent_iff.mpr ⟨hxg, hun'⟩)
      fun heq => hnet (heq ▸ rfl)
    exact ⟨x, h.mem_queue.mpr (.inl hmem), rfl, hxg⟩

end Continues

namespace Tracks

/-- **A pick keeps track of the design.** Its net is in a new generation, so
nothing that was queued for the net before counts any longer. -/
theorem of_continues {m : MeasuredNet} (h : rp.Tracks s) (hnext : s.next? = some (c, rest))
    (hc : rp.Continues s c rest s' m) : rp.Tracks s' := by
  obtain ⟨skipped, first, hsplit, -, -, -⟩ := exists_of_next? hnext
  have hrest : ∀ x ∈ rest, x ∈ s.queue := fun x hx => by simp [hsplit, hx]
  have hsorted : Queued.Ascending rest := by
    have hall := h.ascending
    rw [hsplit] at hall
    exact (List.pairwise_cons.mp (List.pairwise_append.mp hall).2.1).2
  obtain ⟨dm, hdm⟩ := h.measured
  refine ⟨Placement.exists_measure_of_other hdm hc.other hc.measured, ?_,
    fun x hx => hc.bounded h hrest hx, fun c' hun => ?_, fun k => ?_⟩
  · rw [hc.queue]
    exact ascending_requeued hsorted
  · by_cases hnet : c'.net = c.net
    · exact hc.current_of_net_eq h hrest hun hnet
    · exact hc.current_of_net_ne h hnext hrest hun hnet
  · obtain ⟨pick, hpicks, hcandidate⟩ := hc.picks
    rw [hc.unpicked, h.unpicked, hpicks, ← hcandidate]
    simp only [List.mem_append, List.mem_singleton, or_imp, forall_and, forall_eq', and_assoc,
      ne_eq, eq_comm]

theorem of_pick (hconf : rp.router.Confined) (h : rp.Tracks s)
    (hnext : s.next? = some (c, rest)) (hpick : rp.pick s c rest = (s', none)) : rp.Tracks s' :=
  (continues_of_pick hconf hpick).elim fun _ hc => h.of_continues hnext hc

/-- **The first queue is that of the measured design.** -/
theorem start (rp : Repairer σ) (state : σ) {r : Routing} {dm : Measurement}
    (hdm : (rp.placement.measure rp.settings r).outcome = .ok dm) (events : List Event) :
    rp.Tracks (rp.start state r dm events) := by
  have hgen : ∀ net, (rp.start state r dm events).generation net = 0 := fun _ => rfl
  refine ⟨⟨dm, hdm⟩, ?_, ?_, ?_, ?_⟩
  · exact List.pairwise_map.mpr (Ranking.pairwise_hold _ _ _)
  · intro x hx
    obtain ⟨c, -, rfl⟩ := List.mem_map.mp hx
    exact Nat.zero_le _
  · intro c _
    have hrouting : (rp.start state r dm events).routing = r := rfl
    rw [hrouting, ← Placement.mem_hold_of_measure hdm, hgen]
    constructor
    · rintro ⟨x, hx, rfl, -⟩
      obtain ⟨c, hc, rfl⟩ := List.mem_map.mp hx
      exact hc
    · intro hc
      exact ⟨_, List.mem_map.mpr ⟨c, hc, rfl⟩, rfl, rfl⟩
  · intro k
    rw [← Placement.mem_keys_of_measure hdm]
    simp [Repairer.start]

end Tracks

end Repairer

end HoldMargin
