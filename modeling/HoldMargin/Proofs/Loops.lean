import HoldMargin.Proofs.Outcome
import HoldMargin.Repair.Session
/-!
# Rules for the two loops of repair

What holds at the start of the rounds on a connection and is kept by every
round that another one may follow says what the rounds come to
(`Repairer.rounds_rule`, and `Repairer.rounds_induction` where it matters how
many may follow); what every pick of a session keeps says what the session
comes to (`Repairer.run_rule`). Statements about repair are then about a
single round, or about a single pick.
-/

namespace HoldMargin

namespace Repairer

variable {σ : Type} {rp : Repairer σ} {c : Ranked} {kept : NodeSet} {before : Routing}

/-! ## Giving up -/

/-- **Giving up** puts the previous route back, or leaves everything as it
is, and is recorded as such. -/
theorem giveUp_cases (pg : Progress σ) (lengthAfter : Option Nat) (reason : RepairFailure) :
    (∃ e, rp.placement.net c.net = .error e ∧
      rp.giveUp c before pg lengthAfter reason = (pg, .stopped e)) ∨
    ∃ record, record.reason = reason ∧
      record.restored = (reason.cutsOff && rp.settings.repair.rollbackOnFailure) ∧
      rp.giveUp c before pg lengthAfter reason =
        ({ pg with
          routing := if record.restored then pg.routing.set c.net (before.of c.net)
            else pg.routing }, .abandoned record) := by
  unfold giveUp
  cases rp.placement.net c.net with
  | error e => exact .inl ⟨e, rfl, rfl⟩
  | ok net =>
    refine .inr ⟨{
      net := net.name
      driver := rp.placement.label c.driver
      sink := rp.placement.label c.sink
      lengthBefore := c.length
      lengthAfter :=
        if reason.cutsOff && rp.settings.repair.rollbackOnFailure then some c.length
        else lengthAfter
      attempts := pg.rounds.length
      reason
      restored := reason.cutsOff && rp.settings.repair.rollbackOnFailure }, rfl, rfl, rfl⟩

/-- **What an abandonment says**: the length that the connection was picked
with, and that length again if its route was put back. -/
theorem giveUp_eq_abandoned {pg pg' : Progress σ} {lengthAfter : Option Nat}
    {reason : RepairFailure} {record : Abandonment}
    (h : rp.giveUp c before pg lengthAfter reason = (pg', .abandoned record)) :
    record.reason = reason ∧ record.lengthBefore = c.length ∧
      record.restored = (reason.cutsOff && rp.settings.repair.rollbackOnFailure) ∧
      record.lengthAfter = (if record.restored then some record.lengthBefore else lengthAfter) ∧
      pg'.routing =
        if record.restored then pg.routing.set c.net (before.of c.net) else pg.routing := by
  unfold giveUp at h
  cases hnet : rp.placement.net c.net with
  | error e =>
    rw [hnet] at h
    cases h
  | ok net =>
    rw [hnet] at h
    cases h
    exact ⟨rfl, rfl, rfl, rfl, rfl⟩

/-! ## Rounds -/

/-- **A round that the router answered**, with the branch that was planned to be
taken out and the nodes it gave to avoid. -/
structure Answered (rp : Repairer σ) (c : Ranked) (kept : NodeSet) (pg pg' : Progress σ)
    (branch : List EdgeId) (nodes : List NodeId) (rd : Round) (reply : RouteReply σ) : Prop where
  plan : rp.plan c kept pg.routing = .ok (branch, nodes)
  asked : reply = rp.router.route rp.placement pg.state rd.cut
    { net := c.net, sinks := [c.sink], avoid := pg'.avoid }
  before : rd.before = pg.routing
  cut : rd.cut = pg.routing.set c.net ((pg.routing.of c.net).diff branch)
  after : rd.after = reply.routing
  state : pg'.state = reply.state
  routing : pg'.routing = reply.routing
  avoid : pg'.avoid = pg.avoid.union nodes
  avoided : rd.avoid = pg'.avoid
  rounds : pg'.rounds = pg.rounds ++ [rd]

/-- What is so of the rounds before and of this one is so of all of them. -/
theorem Answered.forall_rounds {pg pg' : Progress σ} {branch : List EdgeId} {nodes : List NodeId}
    {rd : Round} {reply : RouteReply σ} {Q : Round → Prop}
    (ha : rp.Answered c kept pg pg' branch nodes rd reply) (h : ∀ rd ∈ pg.rounds, Q rd)
    (hrd : Q rd) : ∀ rd ∈ pg'.rounds, Q rd := by
  rw [ha.rounds, List.forall_mem_append, List.forall_mem_singleton]
  exact ⟨h, hrd⟩

/-- **What a round comes to**, whatever the router. -/
theorem round_cases {pg pg' : Progress σ} {res : RoundResult}
    (h : rp.round c kept pg = (pg', res)) :
    (pg' = pg ∧ ∃ e, rp.plan c kept pg.routing = .error e ∧ res = .stopped e) ∨
    ∃ branch nodes rd reply, rp.Answered c kept pg pg' branch nodes rd reply ∧
      ((∃ e, reply.outcome = .error (.model e) ∧ res = .stopped e) ∨
        (∃ e, reply.outcome = .error e ∧ res = .unroutable) ∨
        reply.outcome = .ok () ∧
          ((∃ e, (rp.placement.measureNet rp.settings.weighting reply.routing c.net).outcome =
              .error e ∧ res = .stopped e) ∨
            ∃ m grew, (rp.placement.measureNet rp.settings.weighting reply.routing c.net).outcome =
              .ok m ∧ res = .rerouted (m.length? c.sink) grew)) := by
  unfold round at h
  split at h
  · rename_i e hplan
    cases h
    exact .inl ⟨rfl, e, hplan, rfl⟩
  · rename_i branch nodes hplan
    right
    dsimp only at h
    split at h
    · rename_i e he
      cases h
      exact ⟨branch, nodes, _, _, ⟨hplan, rfl, rfl, rfl, rfl, rfl, rfl, rfl, rfl, rfl⟩,
        .inl ⟨e, he, rfl⟩⟩
    · rename_i e _ he
      cases h
      exact ⟨branch, nodes, _, _, ⟨hplan, rfl, rfl, rfl, rfl, rfl, rfl, rfl, rfl, rfl⟩,
        .inr (.inl ⟨e, he, rfl⟩)⟩
    · rename_i hok
      split at h
      · rename_i e he
        cases h
        exact ⟨branch, nodes, _, _, ⟨hplan, rfl, rfl, rfl, rfl, rfl, rfl, rfl, rfl, rfl⟩,
          .inr (.inr ⟨hok, .inl ⟨e, he, rfl⟩⟩)⟩
      · rename_i m hm
        cases h
        exact ⟨branch, nodes, _, _, ⟨hplan, rfl, rfl, rfl, rfl, rfl, rfl, rfl, rfl, rfl⟩,
          .inr (.inr ⟨hok, .inr ⟨m, _, hm, rfl⟩⟩)⟩

/-- Whether a round had anything new to avoid. -/
theorem grew_of_round {pg pg' : Progress σ} {length : Option Nat} {grew : Bool}
    (h : rp.round c kept pg = (pg', .rerouted length grew)) :
    grew = decide (pg.avoid.size < pg'.avoid.size) := by
  unfold round at h
  split at h
  · cases h
  · dsimp only at h
    split at h
    · cases h
    · cases h
    · split at h
      · cases h
      · cases h
        rfl

/-- **What the rounds on a connection come to**, round by round. `P further`
holds at the start of a round that `further` more may follow, and `Q` is to
hold at the end. -/
theorem rounds_induction {P : Nat → Progress σ → Prop} {Q : Progress σ × RepairOutcome → Prop}
    (hstop : ∀ further pg pg' e, P further pg → rp.round c kept pg = (pg', .stopped e) →
      Q (pg', .stopped e))
    (hfail : ∀ further pg pg', P further pg → rp.round c kept pg = (pg', .unroutable) →
      Q (rp.giveUp c before pg' none .routerFailed))
    (hlost : ∀ further pg pg' grew, P further pg →
      rp.round c kept pg = (pg', .rerouted none grew) →
      Q (rp.giveUp c before pg' none .sinkUnreached))
    (hdone : ∀ further pg pg' length grew, P further pg →
      rp.round c kept pg = (pg', .rerouted (some length) grew) → rp.threshold ≤ length →
      Q (pg', .repaired length))
    (hnothing : ∀ further pg pg' length, P further pg →
      rp.round c kept pg = (pg', .rerouted (some length) false) → length < rp.threshold →
      Q (rp.giveUp c before pg' (some length) .nothingToAvoid))
    (hspent : ∀ pg pg' length, P 0 pg →
      rp.round c kept pg = (pg', .rerouted (some length) true) → length < rp.threshold →
      Q (rp.giveUp c before pg' (some length) .roundsSpent))
    (hagain : ∀ further pg pg' length, P (further + 1) pg →
      rp.round c kept pg = (pg', .rerouted (some length) true) → length < rp.threshold →
      P further pg')
    (further : Nat) (pg : Progress σ) (hpg : P further pg) :
    Q (rp.rounds c kept before pg further) := by
  fun_induction rp.rounds c kept before pg further with
  | case1 further pg pg' e h => exact hstop further pg pg' e hpg h
  | case2 further pg pg' h => exact hfail further pg pg' hpg h
  | case3 further pg pg' grew h => exact hlost further pg pg' grew hpg h
  | case4 further pg pg' length grew h hlong => exact hdone further pg pg' length grew hpg h hlong
  | case5 further pg pg' length grew h hlong hgrew =>
    obtain rfl : grew = false := by simpa using hgrew
    exact hnothing further pg pg' length hpg h (Nat.lt_of_not_le hlong)
  | case6 pg pg' length grew h hlong hgrew =>
    obtain rfl : grew = true := by simpa using hgrew
    exact hspent pg pg' length hpg h (Nat.lt_of_not_le hlong)
  | case7 pg pg' length grew h hlong hgrew further ih =>
    obtain rfl : grew = true := by simpa using hgrew
    exact ih (hagain further pg pg' length hpg h (Nat.lt_of_not_le hlong))

/-- **What the rounds on a connection come to.** `P` holds at the start of
every round, and `Q` is to hold at the end. -/
theorem rounds_rule {P : Progress σ → Prop} {Q : Progress σ × RepairOutcome → Prop}
    (hstop : ∀ pg pg' e, P pg → rp.round c kept pg = (pg', .stopped e) → Q (pg', .stopped e))
    (hfail : ∀ pg pg', P pg → rp.round c kept pg = (pg', .unroutable) →
      Q (rp.giveUp c before pg' none .routerFailed))
    (hlost : ∀ pg pg' grew, P pg → rp.round c kept pg = (pg', .rerouted none grew) →
      Q (rp.giveUp c before pg' none .sinkUnreached))
    (hdone : ∀ pg pg' length grew, P pg →
      rp.round c kept pg = (pg', .rerouted (some length) grew) → rp.threshold ≤ length →
      Q (pg', .repaired length))
    (hshort : ∀ pg pg' length grew, P pg →
      rp.round c kept pg = (pg', .rerouted (some length) grew) → length < rp.threshold →
      P pg' ∧ ∀ reason, reason.cutsOff = false → Q (rp.giveUp c before pg' (some length) reason))
    (pg : Progress σ) (hpg : P pg) (further : Nat) : Q (rp.rounds c kept before pg further) :=
  rounds_induction (P := fun _ => P) (fun _ => hstop) (fun _ => hfail) (fun _ => hlost)
    (fun _ => hdone)
    (fun _ pg pg' length hpg h hc => (hshort pg pg' length false hpg h hc).2 _ rfl)
    (fun pg pg' length hpg h hc => (hshort pg pg' length true hpg h hc).2 _ rfl)
    (fun _ pg pg' length hpg h hc => (hshort pg pg' length true hpg h hc).1) further pg hpg

/-- **The repair of one connection** fails before its first round, or is what
the rounds come to. -/
theorem repairOne_cases {state : σ} {r : Routing} {pg : Progress σ} {out : RepairOutcome}
    (h : rp.repairOne c state r = (pg, out)) :
    (∃ e, (rp.placement.net c.net >>= fun _ => rp.placement.keptNodes c) = .error e ∧
      pg = { state, routing := r } ∧ out = .stopped e) ∨
    ∃ kept, rp.placement.keptNodes c = .ok kept ∧
      rp.rounds c kept r { state, routing := r } (rp.settings.repair.maxAttempts - 1) =
        (pg, out) := by
  unfold repairOne at h
  split at h
  · rename_i e he
    cases h
    exact .inl ⟨e, he, rfl, rfl⟩
  · rename_i kept hkept
    obtain ⟨_, -, hkept⟩ := bind_eq_ok.mp hkept
    exact .inr ⟨kept, hkept, h⟩

/-! ## Sessions -/

/-- **A pick of a session**, with what repair did to the connection; `rest` is
the queue behind it. -/
structure Picked (rp : Repairer σ) (s : Session σ) (c : Ranked) (s' : Session σ)
    (pg : Progress σ) (out : RepairOutcome) : Prop where
  repaired : rp.repairOne c s.state s.routing = (pg, out)
  state : s'.state = pg.state
  routing : s'.routing = pg.routing
  unpicked : s'.unpicked = s.unpicked.filter (· ≠ c.key)
  picks : s'.picks = s.picks ++ [{
    candidate := c, before := s.routing, rounds := pg.rounds, after := pg.routing, outcome := out }]

theorem Picked.mem_picks {s s' : Session σ} {pg : Progress σ} {out : RepairOutcome}
    (hp : rp.Picked s c s' pg out) :
    { candidate := c, before := s.routing, rounds := pg.rounds, after := pg.routing,
      outcome := out } ∈ s'.picks := by
  rw [hp.picks]
  exact List.mem_append_right _ List.mem_cons_self

/-- What is so of the picks before and of this one is so of all of them. -/
theorem Picked.forall_picks {s s' : Session σ} {pg : Progress σ} {out : RepairOutcome}
    {Q : Pick → Prop} (hp : rp.Picked s c s' pg out) (h : ∀ pick ∈ s.picks, Q pick)
    (hpick : Q {
      candidate := c, before := s.routing, rounds := pg.rounds, after := pg.routing
      outcome := out }) : ∀ pick ∈ s'.picks, Q pick := by
  rw [hp.picks, List.forall_mem_append, List.forall_mem_singleton]
  exact ⟨h, hpick⟩

/-- The queue when a net has been measured again. -/
def requeued (rp : Repairer σ) (unpicked : List NetSink) (queue : List Queued) (generation : Nat)
    (m : MeasuredNet) : List Queued :=
  (rp.stillAtRisk unpicked m).foldl
    (fun queue c => Queued.enqueue { candidate := c, generation } queue) queue

/-- **What a pick comes to.** The session stops with the repair or with the
measurement behind it, or goes on with the net measured again. -/
theorem pick_cases {s s' : Session σ} {rest : List Queued} {stop : Option PassError}
    (h : rp.pick s c rest = (s', stop)) :
    ∃ pg out, rp.Picked s c s' pg out ∧
      ((∃ e, out = .stopped e ∧ stop = some e) ∨ (∀ e, out ≠ .stopped e) ∧
        ((∃ e, (rp.placement.measureNet rp.settings.weighting s'.routing c.net).outcome = .error e ∧
            stop = some e) ∨
          ∃ m, (rp.placement.measureNet rp.settings.weighting s'.routing c.net).outcome = .ok m ∧
            stop = none ∧
            s'.generations = s.generations.insert c.net (s.generation c.net + 1) ∧
            s'.queue = rp.requeued s'.unpicked rest (s.generation c.net + 1) m)) := by
  unfold pick at h
  generalize hrep : rp.repairOne c s.state s.routing = rep at h
  obtain ⟨pg, out⟩ := rep
  dsimp only at h
  split at h
  · rename_i e
    cases h
    exact ⟨pg, .stopped e, ⟨hrep, rfl, rfl, rfl, rfl⟩, .inl ⟨e, rfl, rfl⟩⟩
  · rename_i hgo
    unfold requeue at h
    dsimp only at h
    split at h
    · rename_i e he
      cases h
      exact ⟨pg, out, ⟨hrep, rfl, rfl, rfl, rfl⟩, .inr ⟨hgo, .inl ⟨e, he, rfl⟩⟩⟩
    · rename_i m hm
      cases h
      exact ⟨pg, out, ⟨hrep, rfl, rfl, rfl, rfl⟩, .inr ⟨hgo, .inr ⟨m, hm, rfl, rfl, rfl⟩⟩⟩

/-- A session, by what comes next. -/
theorem run_eq (s : Session σ) :
    rp.run s =
      match s.next? with
      | none => (s, .settled)
      | some (c, rest) =>
        if rp.threshold ≤ c.length then (s, .settled)
        else if rp.isLimitUsed s then (s, .limitReached)
        else
          match rp.pick s c rest with
          | (s, some e) => (s, .stopped e)
          | (s, none) => rp.run s := by
  fun_cases rp.run s with
  | case1 h => simp only [h]
  | case2 c rest h hc => simp only [h, if_pos hc]
  | case3 c rest h hc hused => simp only [h, if_neg hc, if_pos hused]
  | case4 c rest h hc hused s' e hp => simp only [h, if_neg hc, if_neg hused, hp]
  | case5 c rest h hc hused s' hp => simp only [h, if_neg hc, if_neg hused, hp]

/-- **What a session comes to.** `I` holds before every pick, and `E` is to
hold at the end. -/
theorem run_rule {I : Session σ → Prop} {E : Session σ × SessionEnd → Prop}
    (hpick : ∀ s c rest s' stop, I s → s.next? = some (c, rest) → c.length < rp.threshold →
      rp.isLimitUsed s = false → rp.pick s c rest = (s', stop) →
      match stop with
      | none => I s'
      | some e => E (s', .stopped e))
    (hempty : ∀ s, I s → s.next? = none → E (s, .settled))
    (hlong : ∀ s c rest, I s → s.next? = some (c, rest) → rp.threshold ≤ c.length →
      E (s, .settled))
    (hlimit : ∀ s c rest, I s → s.next? = some (c, rest) → c.length < rp.threshold →
      rp.isLimitUsed s = true → E (s, .limitReached))
    (s : Session σ) (hs : I s) : E (rp.run s) := by
  fun_induction rp.run s with
  | case1 s h => exact hempty s hs h
  | case2 s c rest h hc => exact hlong s c rest hs h hc
  | case3 s c rest h hc hused => exact hlimit s c rest hs h (Nat.lt_of_not_le hc) hused
  | case4 s c rest h hc hused s' e hp =>
    exact hpick s c rest s' (some e) hs h (Nat.lt_of_not_le hc) (by simpa using hused) hp
  | case5 s c rest h hc hused s' hp ih =>
    exact ih (hpick s c rest s' none hs h (Nat.lt_of_not_le hc) (by simpa using hused) hp)

end Repairer

namespace Session

variable {σ : Type} {s : Session σ} {end_ : SessionEnd}

theorem finish_eq_error {e : PassError} :
    (s.finish end_).outcome = .error e ↔ end_ = .stopped e := by
  cases end_ <;> simp [finish]

/-- A session that is not stopped comes to its summary. -/
theorem finish_eq_ok {summary : SessionSummary} (h : (s.finish end_).outcome = .ok summary) :
    end_ = .settled ∧ summary = s.summary false ∨
      end_ = .limitReached ∧ summary = s.summary true := by
  cases end_ with
  | settled => exact .inl ⟨rfl, by cases h; rfl⟩
  | limitReached => exact .inr ⟨rfl, by cases h; rfl⟩
  | stopped e => cases h

end Session

namespace Repairer

variable {σ : Type} {rp : Repairer σ}

/-- **A repair** that is not stopped by the first measurement is a session. -/
theorem repair_cases (rp : Repairer σ) (state : σ) (r : Routing) :
    (∃ e, (rp.placement.measure rp.settings r).outcome = .error e ∧
      (rp.repair state r).routing = r ∧ (rp.repair state r).picks = [] ∧
      (rp.repair state r).outcome = .error e) ∨
    ∃ m, (rp.placement.measure rp.settings r).outcome = .ok m ∧
      let last := rp.run (rp.start state r m (rp.placement.measure rp.settings r).events)
      rp.repair state r = last.1.finish last.2 := by
  unfold repair
  cases h : (rp.placement.measure rp.settings r).outcome with
  | error e => exact .inl ⟨e, rfl, by simp only [h, and_self]⟩
  | ok m => exact .inr ⟨m, rfl, by simp only [h]⟩

/-- **What the picks of a repair have in common.** `I` holds before every pick,
and `Q` is what a pick then has. The last pick of a session that was stopped
is one of them. -/
theorem picks_rule {I : Session σ → Prop} {Q : Pick → Prop} (state : σ) (r : Routing)
    (hstart : ∀ m, (rp.placement.measure rp.settings r).outcome = .ok m →
      I (rp.start state r m (rp.placement.measure rp.settings r).events))
    (hkeep : ∀ s c rest s', I s → s.next? = some (c, rest) → rp.pick s c rest = (s', none) → I s')
    (hpick : ∀ s c rest s' pg out, I s → s.next? = some (c, rest) → rp.Picked s c s' pg out →
      Q {
        candidate := c, before := s.routing, rounds := pg.rounds, after := pg.routing
        outcome := out }) :
    ∀ pick ∈ (rp.repair state r).picks, Q pick := by
  rcases repair_cases rp state r with ⟨-, -, -, hnone, -⟩ | ⟨m, hm, hlast⟩
  · simp [hnone]
  rw [hlast]
  refine run_rule (I := fun s => I s ∧ ∀ pick ∈ s.picks, Q pick)
    (E := fun last => ∀ pick ∈ last.1.picks, Q pick) ?_ (fun _ hs _ => hs.2)
    (fun _ _ _ hs _ _ => hs.2) (fun _ _ _ hs _ _ _ => hs.2) _ ⟨hstart m hm, by simp [start]⟩
  rintro s c rest s' stop ⟨hs, hall⟩ hnext - - h
  have hall' : ∀ pick ∈ s'.picks, Q pick := by
    obtain ⟨pg, out, hp, -⟩ := pick_cases h
    exact hp.forall_picks hall (hpick s c rest s' pg out hs hnext hp)
  cases stop with
  | none => exact ⟨hkeep s c rest s' hs hnext h, hall'⟩
  | some e => exact hall'

/-- **What a repair reports as given up on was picked.** -/
theorem exists_pick_of_mem_abandoned {state : σ} {r : Routing} {summary : SessionSummary}
    (h : (rp.repair state r).outcome = .ok summary) {record : Abandonment}
    (hmem : record ∈ summary.abandoned) :
    ∃ pick ∈ (rp.repair state r).picks, pick.outcome = .abandoned record := by
  rcases repair_cases rp state r with ⟨e, -, -, -, he⟩ | ⟨m, -, hlast⟩
  · rw [he] at h
    cases h
  rw [hlast] at h ⊢
  have hsummary : ∃ limitReached, summary = Session.summary _ limitReached :=
    (Session.finish_eq_ok h).elim (fun h => ⟨_, h.2⟩) fun h => ⟨_, h.2⟩
  obtain ⟨limitReached, rfl⟩ := hsummary
  obtain ⟨pick, hpick, hrecord⟩ := List.mem_filterMap.mp hmem
  refine ⟨pick, hpick, ?_⟩
  split at hrecord
  · rename_i heq
    cases hrecord
    exact heq
  · cases hrecord

end Repairer

end HoldMargin
