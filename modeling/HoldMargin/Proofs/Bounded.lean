import HoldMargin.Proofs.Counted
import HoldMargin.Proofs.Measured
import HoldMargin.Proofs.Turns
import Mathlib.Algebra.Order.BigOperators.Group.List
import Mathlib.Algebra.Order.Ring.Nat
import Mathlib.Data.List.Dedup
import Mathlib.Data.List.Perm.Subperm
/-!
# How much a repair can take

Whatever the router does, a repair is done after some turns, picks no
connection twice, spends no more rounds on one than are allowed and asks the
router once a round (`Repairer.repair_bounded`). A connection that has been
picked may not be picked again (`Repairer.Spares`), and what may be picked at
all is fixed before the first pick: the sinks of the nets that take part in
measurement (`Placement.netSinks`).
-/

namespace HoldMargin

namespace Placement

variable {p : Placement} {s : Settings} {k : NetSink}

/-- The distinct sinks, each with its net, of the nets that take part in
measurement. -/
def netSinks (p : Placement) (s : Settings) : List NetSink :=
  ((p.netlist.nets.toList.filter fun net => (p.isAnalyzed s net.id).toOption = some true).flatMap
    fun net => ((p.netlist.net? net.id).toList.flatMap Net.sinks).map
      fun sink => { net := net.id, sink }).dedup

theorem mem_netSinks :
    k ∈ p.netSinks s ↔
      p.Analyzes s k.net ∧ ∃ n, p.netlist.net? k.net = some n ∧ k.sink ∈ n.sinks := by
  have hok : ∀ id, (p.isAnalyzed s id).toOption = some true ↔ p.isAnalyzed s id = .ok true := by
    intro id
    cases p.isAnalyzed s id <;> simp [Except.toOption]
  unfold netSinks Analyzes
  simp only [List.mem_dedup, List.mem_flatMap, List.mem_filter, List.mem_map, decide_eq_true_eq,
    Option.mem_toList, hok, Array.mem_toList_iff]
  constructor
  · rintro ⟨net, ⟨hnet, hana⟩, sink, ⟨n, hn, hsink⟩, rfl⟩
    exact ⟨⟨hana, net, hnet, rfl⟩, n, hn, hsink⟩
  · rintro ⟨⟨hana, net, hnet, hid⟩, n, hn, hsink⟩
    rw [← hid] at hana hn
    exact ⟨net, ⟨hnet, hana⟩, k.sink, ⟨n, hn, hsink⟩, by rw [hid]⟩

/-- What may be picked is a sink of a net that takes part. -/
theorem Offers.mem_netSinks (h : p.Offers s k) : k ∈ p.netSinks s := by
  obtain ⟨hana, cs, hcs, c, hc, rfl⟩ := h
  obtain ⟨n, hn, -, hconn⟩ := connections_eq_ok hcs
  exact Placement.mem_netSinks.mpr ⟨hana, n, net_eq_ok.mp hn, (hconn c hc).sink⟩

end Placement

namespace Repairer

variable {σ : Type} {rp : Repairer σ} {c : Ranked} {kept : NodeSet} {before : Routing}

/-! ## Rounds -/

theorem rounds_giveUp (pg : Progress σ) (lengthAfter : Option Nat) (reason : RepairFailure) :
    (rp.giveUp c before pg lengthAfter reason).1.rounds = pg.rounds := by
  rcases giveUp_cases pg lengthAfter reason with ⟨e, -, heq⟩ | ⟨record, -, -, heq⟩
  · rw [heq]
  · rw [heq]

/-- A round is kept once, or not at all. -/
theorem length_rounds_round {pg pg' : Progress σ} {res : RoundResult}
    (h : rp.round c kept pg = (pg', res)) : pg'.rounds.length ≤ pg.rounds.length + 1 := by
  rcases round_cases h with ⟨rfl, -⟩ | ⟨branch, nodes, rd, reply, ha, -⟩
  · exact Nat.le_succ _
  · rw [ha.rounds, List.length_append]
    exact Nat.le_refl _

theorem length_rounds_le (pg : Progress σ) (further : Nat) :
    (rp.rounds c kept before pg further).1.rounds.length ≤ pg.rounds.length + (further + 1) := by
  fun_induction rp.rounds c kept before pg further with
  | case1 further pg pg' e h | case4 further pg pg' length grew h hlong =>
    have hle := length_rounds_round h
    dsimp only
    omega
  | case2 further pg pg' h | case3 further pg pg' grew h
  | case5 further pg pg' length grew h hlong hgrew =>
    have hle := length_rounds_round h
    rw [rounds_giveUp]
    omega
  | case6 pg pg' length grew h hlong hgrew =>
    have hle := length_rounds_round h
    rw [rounds_giveUp]
    omega
  | case7 pg pg' length grew h hlong hgrew further ih =>
    have hle := length_rounds_round h
    omega

/-- **No more rounds are spent on a connection than are allowed**, of which there
is one at least. -/
theorem length_rounds_repairOne {state : σ} {r : Routing} {pg : Progress σ} {out : RepairOutcome}
    (h : rp.repairOne c state r = (pg, out)) :
    pg.rounds.length ≤ max 1 rp.settings.repair.maxAttempts := by
  rcases repairOne_cases h with ⟨e, -, rfl, -⟩ | ⟨kept, -, h⟩
  · exact Nat.zero_le _
  · have hle : (rp.rounds c kept r { state, routing := r }
        (rp.settings.repair.maxAttempts - 1)).1.rounds.length ≤ _ := length_rounds_le _ _
    rw [h] at hle
    simp only [List.length_nil] at hle
    omega

theorem length_rounds_of_mem_picks {state : σ} {r : Routing} {pick : Pick}
    (h : pick ∈ (rp.repair state r).picks) :
    pick.rounds.length ≤ max 1 rp.settings.repair.maxAttempts :=
  picks_rule (I := fun _ => True)
    (Q := fun pick => pick.rounds.length ≤ max 1 rp.settings.repair.maxAttempts) state r
    (fun _ _ => trivial) (fun _ _ _ _ _ _ _ => trivial)
    (fun _ _ _ _ _ _ _ _ hp => length_rounds_repairOne hp.repaired) pick h

/-! ## Picks -/

/-- **No connection is picked twice**: what has been picked is different from
one another and from what may still be picked, and all of it are sinks of
nets that take part. -/
structure Spares (rp : Repairer σ) (s : Session σ) : Prop where
  once : (s.picks.map fun pick => pick.candidate.key).Nodup
  listed : ∀ pick ∈ s.picks, pick.candidate.key ∈ rp.placement.netSinks rp.settings
  unpicked : ∀ k ∈ s.unpicked, k ∈ rp.placement.netSinks rp.settings ∧
    ∀ pick ∈ s.picks, pick.candidate.key ≠ k

theorem Spares.of_picked {s s' : Session σ} {rest : List Queued} {pg : Progress σ}
    {out : RepairOutcome} (h : rp.Spares s) (hnext : s.next? = some (c, rest))
    (hp : rp.Picked s c s' pg out) : rp.Spares s' := by
  obtain ⟨hlisted, hfresh⟩ := h.unpicked c.key (Session.mem_unpicked_of_next? hnext)
  refine ⟨?_, hp.forall_picks h.listed hlisted, ?_⟩
  · rw [hp.picks, List.map_append, List.nodup_append]
    refine ⟨h.once, List.nodup_singleton _, ?_⟩
    intro k hk k' hk'
    obtain ⟨pick, hpick, rfl⟩ := List.mem_map.mp hk
    obtain rfl : k' = c.key := by simpa using hk'
    exact hfresh pick hpick
  · intro k hk
    rw [hp.unpicked, List.mem_filter] at hk
    obtain ⟨hin, hother⟩ := h.unpicked k hk.1
    have hne : k ≠ c.key := by simpa using hk.2
    exact ⟨hin, hp.forall_picks hother hne.symm⟩

theorem Spares.run {s : Session σ} (h : rp.Spares s) : rp.Spares (rp.run s).1 := by
  refine run_rule (I := rp.Spares) (E := fun last => rp.Spares last.1) ?_ (fun _ hs _ => hs)
    (fun _ _ _ hs _ _ => hs) (fun _ _ _ hs _ _ _ => hs) s h
  intro s c rest s' stop hs hnext _ _ hpick
  obtain ⟨pg, out, hp, -⟩ := pick_cases hpick
  cases stop <;> exact hs.of_picked hnext hp

/-- **The picks of a repair** are of distinct sinks of nets that take part. -/
theorem nodup_picks (rp : Repairer σ) (state : σ) (r : Routing) :
    ((rp.repair state r).picks.map fun pick => pick.candidate.key).Nodup ∧
      ∀ pick ∈ (rp.repair state r).picks,
        pick.candidate.key ∈ rp.placement.netSinks rp.settings := by
  rcases repair_cases rp state r with ⟨-, -, -, hnone, -⟩ | ⟨m, hm, hlast⟩
  · simp [hnone]
  have hstart : rp.Spares (rp.start state r m (rp.placement.measure rp.settings r).events) :=
    ⟨by simp [start], by simp [start], fun k hk =>
      ⟨((Placement.mem_keys_of_measure hm).mp hk).mem_netSinks, by simp [start]⟩⟩
  rw [hlast]
  exact ⟨hstart.run.once, hstart.run.listed⟩

theorem sum_rounds_le (rp : Repairer σ) (state : σ) (r : Routing) :
    ((rp.repair state r).picks.flatMap (·.rounds)).length ≤
      max 1 rp.settings.repair.maxAttempts * (rp.placement.netSinks rp.settings).length := by
  obtain ⟨hnodup, hlisted⟩ := nodup_picks rp state r
  have hpicks : (rp.repair state r).picks.length ≤
      (rp.placement.netSinks rp.settings).length := by
    have hsub : ((rp.repair state r).picks.map fun pick => pick.candidate.key) ⊆
        rp.placement.netSinks rp.settings := fun k hk => by
      obtain ⟨pick, hpick, rfl⟩ := List.mem_map.mp hk
      exact hlisted pick hpick
    simpa using (List.Nodup.subperm hnodup hsub).length_le
  have hrounds := List.sum_le_card_nsmul
    ((rp.repair state r).picks.map (·.rounds.length)) (max 1 rp.settings.repair.maxAttempts)
    fun k hk => by
      obtain ⟨pick, hpick, rfl⟩ := List.mem_map.mp hk
      exact length_rounds_of_mem_picks hpick
  rw [List.length_map, Nat.nsmul_eq_mul, Nat.mul_comm, ← List.length_flatMap] at hrounds
  exact hrounds.trans (Nat.mul_le_mul_left _ hpicks)

/-- **A repair ends, and takes no more than it may**, whatever the router does:
both loops are done after some turns, no connection is picked twice, no more
rounds are spent on one than are allowed (one round always is), and a router
that counts its requests counts no more than that for every sink. -/
theorem repair_bounded (rp : Repairer σ) (state : σ) (r : Routing) :
    let result := rp.repair state r
    let most := max 1 rp.settings.repair.maxAttempts
    (∃ turns, rp.repairWithin turns state r = some result) ∧
      (∀ c kept first before,
        loopWithin (rp.attempt c kept before) most { state := first, routing := before } =
          some (rp.rounds c kept before { state := first, routing := before }
            (rp.settings.repair.maxAttempts - 1))) ∧
      (result.picks.map fun pick => pick.candidate.key).Nodup ∧
      (∀ pick ∈ result.picks, pick.rounds.length ≤ most) ∧
      ∃ calls ≤ most * (rp.placement.netSinks rp.settings).length,
        rp.counting.repair (state, 0) r = { result with state := (result.state, calls) } := by
  dsimp only
  refine ⟨exists_repairWithin rp state r, fun c kept first before => ?_,
    (nodup_picks rp state r).1, fun pick hpick => length_rounds_of_mem_picks hpick,
    _, sum_rounds_le rp state r, repair_counting rp state r⟩
  have hmost : max 1 rp.settings.repair.maxAttempts =
      rp.settings.repair.maxAttempts - 1 + 1 := by omega
  rw [hmost]
  exact loopWithin_attempt _ _ (by rw [hmost]; exact Nat.zero_add _)

end Repairer

end HoldMargin
