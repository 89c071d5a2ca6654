import HoldMargin.Proofs.Loops
/-!
# The loops of repair, turn by turn

Repair is written by recursion on what is left: on the connections that may
still be picked, and on the rounds that may still follow. Here its two loops
are run without such a bound. A turn of the queue takes one entry out,
whether it counts or not (`Repairer.turn`); a turn of the rounds spends a
round and looks how many there have been (`Repairer.attempt`). Both loops are
done after some turns, and come to what the recursion comes to
(`Repairer.exists_repairWithin`, `Repairer.loopWithin_attempt`). For the queue
this is so because a turn that puts new entries into it takes a connection
out of those that may be picked, and every other turn shortens it.
-/

namespace HoldMargin

/-! ## Loops -/

/-- A turn of a loop: the loop goes on from another state, or it is done. -/
inductive Turn (α β : Type) where
  | again (a : α)
  | done (b : β)

/-- What a loop comes to, if it is done within some turns. -/
def loopWithin {α β : Type} (turn : α → Turn α β) : (turns : Nat) → α → Option β
  | 0, _ => none
  | turns + 1, a =>
    match turn a with
    | .again a => loopWithin turn turns a
    | .done b => some b

section Loop

variable {α β γ : Type} {turn : α → Turn α β} {turns : Nat} {a a' : α} {b : β}

theorem loopWithin_again (h : turn a = .again a') :
    loopWithin turn (turns + 1) a = loopWithin turn turns a' := by
  rw [loopWithin, h]

theorem loopWithin_done (h : turn a = .done b) : loopWithin turn (turns + 1) a = some b := by
  rw [loopWithin, h]

/-- A loop comes to one thing, however many turns are allowed. -/
theorem loopWithin_unique {turns' : Nat} {b' : β} (h : loopWithin turn turns a = some b)
    (h' : loopWithin turn turns' a = some b') : b = b' := by
  induction turns generalizing a turns' with
  | zero => cases h
  | succ turns ih =>
    cases turns' with
    | zero => cases h'
    | succ turns' =>
      cases hturn : turn a with
      | again a' =>
        rw [loopWithin_again hturn] at h h'
        exact ih h h'
      | done b'' =>
        rw [loopWithin_done hturn, Option.some.injEq] at h h'
        exact h.symm.trans h'

/-- **What every turn keeps** holds where a loop is done. -/
theorem loopWithin_rule {P : α → Prop} {Q : β → Prop}
    (hagain : ∀ a a', P a → turn a = .again a' → P a')
    (hdone : ∀ a b, P a → turn a = .done b → Q b) (ha : P a)
    (h : loopWithin turn turns a = some b) : Q b := by
  induction turns generalizing a with
  | zero => cases h
  | succ turns ih =>
    cases hturn : turn a with
    | again a' => exact ih (hagain a a' ha hturn) (loopWithin_again hturn ▸ h)
    | done b' =>
      rw [loopWithin_done hturn, Option.some.injEq] at h
      exact h ▸ hdone a b' ha hturn

/-- **A loop is done at some time** if every turn makes something smaller. -/
theorem exists_loopWithin_of_decreases [WellFoundedRelation γ] (size : α → γ)
    (hagain : ∀ a a', turn a = .again a' → WellFoundedRelation.rel (size a') (size a)) (a : α) :
    ∃ turns b, loopWithin turn turns a = some b := by
  cases hturn : turn a with
  | done b => exact ⟨1, b, loopWithin_done hturn⟩
  | again a' =>
    obtain ⟨turns, b, hturns⟩ := exists_loopWithin_of_decreases size hagain a'
    exact ⟨turns + 1, b, by rw [loopWithin_again hturn, hturns]⟩
termination_by size a
decreasing_by exact hagain a a' hturn

/-- Such a loop comes to `f` of its first state if no turn changes `f` and the last
one gives it. -/
theorem exists_loopWithin [WellFoundedRelation γ] (size : α → γ) {f : α → β}
    (hagain : ∀ a a', turn a = .again a' →
      WellFoundedRelation.rel (size a') (size a) ∧ f a' = f a)
    (hdone : ∀ a b, turn a = .done b → b = f a) (a : α) :
    ∃ turns, loopWithin turn turns a = some (f a) := by
  obtain ⟨turns, b, h⟩ :=
    exists_loopWithin_of_decreases size (fun a a' hturn => (hagain a a' hturn).1) a
  have hb : b = f a :=
    loopWithin_rule (P := fun x => f x = f a) (Q := fun b => b = f a)
      (fun x x' hx hturn => (hagain x x' hturn).2.trans hx)
      (fun x b hx hturn => (hdone x b hturn).trans hx) rfl h
  exact ⟨turns, hb ▸ h⟩

end Loop

namespace Repairer

variable {σ : Type} (rp : Repairer σ)

/-! ## Rounds -/

/-- A turn of the rounds on a connection. -/
def attempt (c : Ranked) (kept : NodeSet) (before : Routing) (pg : Progress σ) :
    Turn (Progress σ) (Progress σ × RepairOutcome) :=
  match rp.round c kept pg with
  | (pg, .stopped e) => .done (pg, .stopped e)
  | (pg, .unroutable) => .done (rp.giveUp c before pg none .routerFailed)
  | (pg, .rerouted none _) => .done (rp.giveUp c before pg none .sinkUnreached)
  | (pg, .rerouted (some length) grew) =>
    if rp.threshold ≤ length then .done (pg, .repaired length)
    else if !grew then .done (rp.giveUp c before pg (some length) .nothingToAvoid)
    else if rp.settings.repair.maxAttempts ≤ pg.rounds.length then
      .done (rp.giveUp c before pg (some length) .roundsSpent)
    else .again pg

variable {rp} {c : Ranked} {kept : NodeSet} {before : Routing}

/-- A round that does not stop the session has been answered by the router, and
is kept. -/
theorem length_rounds_of_round {pg pg' : Progress σ} {res : RoundResult}
    (h : rp.round c kept pg = (pg', res)) (hgo : ∀ e, res ≠ .stopped e) :
    pg'.rounds.length = pg.rounds.length + 1 := by
  rcases round_cases h with ⟨-, e, -, hno⟩ | ⟨branch, nodes, rd, reply, ha, -⟩
  · exact absurd hno (hgo e)
  · rw [ha.rounds, List.length_append, List.length_singleton]

/-- **The rounds on a connection are done** when as many have been spent as are
allowed, of which there is one at least. -/
theorem loopWithin_attempt (pg : Progress σ) (further : Nat)
    (hspent : pg.rounds.length + (further + 1) = max 1 rp.settings.repair.maxAttempts) :
    loopWithin (rp.attempt c kept before) (further + 1) pg =
      some (rp.rounds c kept before pg further) := by
  fun_induction rp.rounds c kept before pg further with
  | case1 further pg pg' e h => exact loopWithin_done (by rw [attempt, h])
  | case2 further pg pg' h => exact loopWithin_done (by rw [attempt, h])
  | case3 further pg pg' grew h => exact loopWithin_done (by rw [attempt, h])
  | case4 further pg pg' length grew h hlong =>
    exact loopWithin_done (by simp only [attempt, h, if_pos hlong])
  | case5 further pg pg' length grew h hlong hgrew =>
    exact loopWithin_done (by simp only [attempt, h, if_neg hlong, if_pos hgrew])
  | case6 pg pg' length grew h hlong hgrew =>
    have hlast : rp.settings.repair.maxAttempts ≤ pg'.rounds.length := by
      rw [length_rounds_of_round h (by simp)]
      omega
    exact loopWithin_done
      (by simp only [attempt, h, if_neg hlong, if_neg hgrew, if_pos hlast])
  | case7 pg pg' length grew h hlong hgrew further ih =>
    have hspent' : pg'.rounds.length + (further + 1) = max 1 rp.settings.repair.maxAttempts := by
      rw [length_rounds_of_round h (by simp)]
      omega
    have hmore : ¬ rp.settings.repair.maxAttempts ≤ pg'.rounds.length := by omega
    have hagain : rp.attempt c kept before pg = .again pg' := by
      simp only [attempt, h, if_neg hlong, if_neg hgrew, if_neg hmore]
    rw [loopWithin_again hagain]
    exact ih hspent'

/-! ## Sessions -/

variable (rp)

/-- A turn of the queue: an entry that does not count is passed over, and any
other is picked, unless the session ends with it. -/
def turn (s : Session σ) : Turn (Session σ) (RepairResult σ) :=
  match s.queue with
  | [] => .done (s.finish .settled)
  | x :: rest =>
    if !s.isCurrent x then .again { s with queue := rest }
    else if rp.threshold ≤ x.candidate.length then .done (s.finish .settled)
    else if rp.isLimitUsed s then .done (s.finish .limitReached)
    else
      match rp.pick s x.candidate rest with
      | (s, some e) => .done (s.finish (.stopped e))
      | (s, none) => .again s

/-- What a session comes to when it is run to its end. -/
def finished (s : Session σ) : RepairResult σ := (rp.run s).1.finish (rp.run s).2

/-- A repair of which the queue is worked off within some turns. -/
def repairWithin (turns : Nat) (state : σ) (r : Routing) : Option (RepairResult σ) :=
  let measured := rp.placement.measure rp.settings r
  match measured.outcome with
  | .error e =>
    some { state, routing := r, picks := [], events := measured.events, outcome := .error e }
  | .ok m => loopWithin rp.turn turns (rp.start state r m measured.events)

variable {rp} {s s' : Session σ} {x : Queued} {rest : List Queued}

theorem next?_of_skipped (hqueue : s.queue = x :: rest) (hx : s.isCurrent x = false) :
    s.next? = { s with queue := rest }.next? := by
  unfold Session.next?
  rw [hqueue, List.dropWhile_cons_of_pos (by simp [hx])]
  rfl

theorem next?_of_current (hqueue : s.queue = x :: rest) (hx : s.isCurrent x = true) :
    s.next? = some (x.candidate, rest) := by
  unfold Session.next?
  rw [hqueue, List.dropWhile_cons_of_neg (by simp [hx])]

/-- An entry that does not count makes no difference. -/
theorem finished_of_skipped (hqueue : s.queue = x :: rest) (hx : s.isCurrent x = false) :
    rp.finished { s with queue := rest } = rp.finished s := by
  unfold finished
  rw [run_eq s, run_eq { s with queue := rest }, next?_of_skipped hqueue hx]
  cases { s with queue := rest }.next? with
  | none => rfl
  | some next =>
    obtain ⟨c, rest'⟩ := next
    -- what is picked, and how that ends, does not depend on the queue
    have hpick : rp.pick { s with queue := rest } c rest' = rp.pick s c rest' := rfl
    have hused : rp.isLimitUsed { s with queue := rest } = rp.isLimitUsed s := rfl
    dsimp only
    rw [hpick, hused]
    split
    · rfl
    · split
      · rfl
      · rfl

/-- What a session comes to if the first entry of the queue counts. -/
theorem finished_of_current (hqueue : s.queue = x :: rest) (hx : s.isCurrent x = true)
    (hc : x.candidate.length < rp.threshold) (hused : rp.isLimitUsed s = false)
    (hpick : rp.pick s x.candidate rest = (s', none)) : rp.finished s' = rp.finished s := by
  unfold finished
  rw [run_eq s, next?_of_current hqueue hx]
  simp only [if_neg (Nat.not_le.mpr hc), hused, Bool.false_eq_true, if_false, hpick]

/-- **A turn of the queue** leaves fewer connections to be picked, or as many
and a shorter queue. -/
theorem turn_eq_again (h : rp.turn s = .again s') :
    Prod.Lex (· < ·) (· < ·) (s'.unpicked.length, s'.queue.length)
      (s.unpicked.length, s.queue.length) ∧ rp.finished s' = rp.finished s := by
  unfold turn at h
  split at h
  · cases h
  rename_i x rest hqueue
  split at h
  · rename_i hx
    cases h
    refine ⟨.right _ ?_, finished_of_skipped hqueue (by simpa using hx)⟩
    simp [hqueue]
  rename_i hx
  have hnext := next?_of_current hqueue (by simpa using hx)
  split at h
  · cases h
  rename_i hc
  split at h
  · cases h
  rename_i hused
  split at h
  · cases h
  · rename_i s₁ hp
    cases h
    refine ⟨.left _ _ ?_, ?_⟩
    · have hless := rp.length_unpicked_pick_lt hnext
      rwa [hp] at hless
    · exact finished_of_current hqueue (by simpa using hx) (Nat.lt_of_not_le hc)
        (by simpa using hused) hp

/-- The last turn of the queue gives the result. -/
theorem turn_eq_done {result : RepairResult σ} (h : rp.turn s = .done result) :
    result = rp.finished s := by
  unfold finished
  rw [run_eq]
  unfold turn at h
  split at h
  · rename_i hqueue
    cases h
    simp only [Session.next?, hqueue, List.dropWhile_nil]
  rename_i x rest hqueue
  split at h
  · cases h
  rename_i hx
  rw [next?_of_current hqueue (by simpa using hx)]
  dsimp only
  split at h
  · rename_i hc
    cases h
    rw [if_pos hc]
  rename_i hc
  rw [if_neg hc]
  split at h
  · rename_i hused
    cases h
    rw [if_pos hused]
  rename_i hused
  rw [if_neg hused]
  generalize rp.pick s x.candidate rest = picked at h ⊢
  obtain ⟨s₁, stop⟩ := picked
  cases stop with
  | none => cases h
  | some e =>
    cases h
    rfl

/-- **A repair is done after some turns**, whatever the router does. -/
theorem exists_repairWithin (rp : Repairer σ) (state : σ) (r : Routing) :
    ∃ turns, rp.repairWithin turns state r = some (rp.repair state r) := by
  unfold repairWithin repair
  cases hm : (rp.placement.measure rp.settings r).outcome with
  | error e => exact ⟨0, by simp only [hm]⟩
  | ok m =>
    simp only [hm]
    exact exists_loopWithin (fun s : Session σ => (s.unpicked.length, s.queue.length))
      (fun _ _ h => turn_eq_again h) (fun _ _ h => turn_eq_done h) _

end Repairer

end HoldMargin
