import HoldMargin.Repair.Rounds
/-!
# Repair sessions

A session measures the design and then repairs the connections at risk, the
shortest first, until the shortest one left is long enough. Repairing a
connection can change the lengths of its siblings, so its net is measured
again afterwards, and the connections of the net go back into the queue
with their new lengths. What was queued for the net before is out of date
from then on: a queued connection counts only while the generation of its
net is the one it was queued in. No connection is picked twice, so there
are no more picks than connections.
-/

namespace HoldMargin

/-- A connection in the queue. -/
structure Queued where
  candidate : Ranked
  /-- The generation of the net when the connection was queued. -/
  generation : Nat
deriving DecidableEq

/-- Puts a connection at its place in an ascending queue. -/
def Queued.enqueue (x : Queued) : List Queued → List Queued
  | [] => [x]
  | y :: ys =>
    if x.candidate.notLonger y.candidate then x :: y :: ys else y :: enqueue x ys

/-- A session, as far as it has come. -/
structure Session (σ : Type) where
  /-- The state of the router. -/
  state : σ
  routing : Routing
  /-- The connections at risk, the shortest first. -/
  queue : List Queued
  /-- How often each net has been measured again. -/
  generations : IdMap .nets Nat := ∅
  /-- The connections that have not been picked yet. -/
  unpicked : List NetSink
  /-- The picks so far, the first one first. -/
  picks : List Pick := []
  events : List Event := []

/-- How a session ended. -/
inductive SessionEnd where
  /-- No connection left is too short. -/
  | settled
  /-- A connection left is too short, but no more may be picked. -/
  | limitReached
  | stopped (error : PassError)
deriving DecidableEq

namespace Session

variable {σ : Type}

/-- The generation of a net. -/
def generation (s : Session σ) (net : NetId) : Nat := (s.generations.get? net).getD 0

/-- Whether a queued connection counts. -/
def isCurrent (s : Session σ) (x : Queued) : Bool :=
  x.generation = s.generation x.candidate.net && x.candidate.key ∈ s.unpicked

/-- The shortest connection left, and the queue behind it. -/
def next? (s : Session σ) : Option (Ranked × List Queued) :=
  match s.queue.dropWhile (!s.isCurrent ·) with
  | [] => none
  | x :: rest => some (x.candidate, rest)

theorem mem_unpicked_of_next? {s : Session σ} {c : Ranked} {rest : List Queued}
    (h : s.next? = some (c, rest)) : c.key ∈ s.unpicked := by
  unfold next? at h
  split at h
  · simp at h
  · rename_i x queue heq
    have hx : (!s.isCurrent x) = false := by
      have := List.head?_dropWhile_not (fun x => !s.isCurrent x) s.queue
      simpa [heq] using this
    simp only [Option.some.injEq, Prod.mk.injEq] at h
    simp only [isCurrent, Bool.not_eq_false', Bool.and_eq_true, decide_eq_true_eq] at hx
    exact h.1 ▸ hx.2

end Session

namespace Repairer

variable {σ : Type} (rp : Repairer σ)

/-- The connections of a measured net that are at risk and may still be
picked. -/
def stillAtRisk (unpicked : List NetSink) (m : MeasuredNet) : List Ranked :=
  (m.connections.filterMap (rp.placement.atRisk? rp.settings.hold.skewAxis)).filter
    (·.key ∈ unpicked)

/-- Reports what became of a pick. -/
def reportOutcome : RepairOutcome → List Event
  | .abandoned record => (record.findings rp.threshold).map .finding
  | _ => []

/-- Measures the net of a repaired connection again and queues its
connections. -/
def requeue (s : Session σ) (net : NetId) : Session σ × Option PassError :=
  let generation := s.generation net + 1
  let measured := rp.placement.measureNet rp.settings.weighting s.routing net
  let s := { s with
    generations := s.generations.insert net generation
    events := s.events ++ Pass.silent measured.events }
  match measured.outcome with
  | .error e => (s, some e)
  | .ok m =>
    let queue := (rp.stillAtRisk s.unpicked m).foldl
      (fun queue c => Queued.enqueue { candidate := c, generation } queue) s.queue
    ({ s with queue }, none)

/-- Picks a connection and repairs it; `rest` is the queue behind it. -/
def pick (s : Session σ) (c : Ranked) (rest : List Queued) :
    Session σ × Option PassError :=
  let (pg, outcome) := rp.repairOne c s.state s.routing
  let s : Session σ := { s with
    state := pg.state
    routing := pg.routing
    queue := rest
    unpicked := s.unpicked.filter (· ≠ c.key)
    picks := s.picks ++ [{
      candidate := c, before := s.routing, rounds := pg.rounds, after := pg.routing, outcome }]
    events := s.events ++ pg.events ++ rp.reportOutcome outcome }
  match outcome with
  | .stopped e => (s, some e)
  | _ => rp.requeue s c.net

/-- Whether as many connections have been picked as may be. -/
def isLimitUsed (s : Session σ) : Bool :=
  rp.settings.repair.pickLimit.any (· ≤ s.picks.length)

theorem unpicked_requeue (s : Session σ) (net : NetId) :
    (rp.requeue s net).1.unpicked = s.unpicked := by
  unfold requeue
  dsimp only
  split <;> rfl

/-- **A pick is taken out of what may be picked.** -/
theorem unpicked_pick (s : Session σ) (c : Ranked) (rest : List Queued) :
    (rp.pick s c rest).1.unpicked = s.unpicked.filter (· ≠ c.key) := by
  unfold pick
  dsimp only
  split
  · rfl
  · rw [unpicked_requeue]

theorem length_unpicked_pick_lt {s : Session σ} {c : Ranked} {rest : List Queued}
    (h : s.next? = some (c, rest)) :
    (rp.pick s c rest).1.unpicked.length < s.unpicked.length := by
  rw [unpicked_pick, List.length_filter_lt_length_iff_exists]
  exact ⟨c.key, Session.mem_unpicked_of_next? h, by simp⟩

/-- Repairs what is left to be repaired. -/
def run (s : Session σ) : Session σ × SessionEnd :=
  match _h : s.next? with
  | none => (s, .settled)
  | some (c, rest) =>
    if rp.threshold ≤ c.length then (s, .settled)
    else if rp.isLimitUsed s then (s, .limitReached)
    else
      match _hp : rp.pick s c rest with
      | (s, some e) => (s, .stopped e)
      | (s, none) => run s
termination_by s.unpicked.length
decreasing_by
  have := rp.length_unpicked_pick_lt _h
  rw [_hp] at this
  exact this

/-- The session that starts from a measured design. -/
def start (state : σ) (r : Routing) (m : Measurement) (events : List Event) : Session σ where
  state := state
  routing := r
  queue := (Ranking.hold rp.placement rp.settings.hold.skewAxis m.connections).toList.map
    fun c => { candidate := c, generation := 0 }
  unpicked := m.connections.map fun c => c.key
  events := events

end Repairer

/-- The rounds of all picks. -/
def Session.attempts {σ : Type} (s : Session σ) : Nat := (s.picks.flatMap (·.rounds)).length

/-- What a session comes to. -/
def Session.summary {σ : Type} (s : Session σ) (limitReached : Bool) : SessionSummary where
  repaired := s.picks.countP fun p => p.outcome matches .repaired _
  abandoned := s.picks.filterMap fun p =>
    match p.outcome with
    | .abandoned record => some record
    | _ => none
  processed := s.picks.length
  attempts := s.attempts
  limitReached

/-- A finished session. -/
structure RepairResult (σ : Type) where
  state : σ
  routing : Routing
  picks : List Pick
  events : List Event
  outcome : Except PassError SessionSummary

/-- The result of a session that ended. -/
def Session.finish {σ : Type} (s : Session σ) (e : SessionEnd) : RepairResult σ where
  state := s.state
  routing := s.routing
  picks := s.picks
  events := s.events
  outcome := match e with
    | .settled => .ok (s.summary false)
    | .limitReached => .ok (s.summary true)
    | .stopped e => .error e

/-- Measures a routing and repairs its connections at risk. -/
def Repairer.repair {σ : Type} (rp : Repairer σ) (state : σ) (r : Routing) : RepairResult σ :=
  let measured := rp.placement.measure rp.settings r
  match measured.outcome with
  | .error e => { state, routing := r, picks := [], events := measured.events, outcome := .error e }
  | .ok m =>
    let (s, e) := rp.run (rp.start state r m measured.events)
    s.finish e

end HoldMargin
