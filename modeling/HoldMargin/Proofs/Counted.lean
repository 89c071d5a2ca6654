import HoldMargin.Proofs.Loops
/-!
# Keeping track of the requests

Any router can be made to take notes of what it is asked, beside the state
it keeps (`Router.noting`). Repair with such a router is repair with the
router itself, and its notes are on the requests of the rounds that have
been spent on all connections, one request a round, in their order
(`Repairer.repair_noting`). A round that could not be planned has not asked
the router, and is not kept either. Notes may be a count
(`Router.counting`) or all the requests (`Router.recording`).
-/

namespace HoldMargin

variable {σ ν : Type}

/-- The router that takes notes of its requests. -/
def Router.noting (note : ν → RouteRequest → ν) (router : Router σ) : Router (σ × ν) where
  route p state r request :=
    let reply := router.route p state.1 r request
    { state := (reply.state, note state.2 request), routing := reply.routing
      outcome := reply.outcome }

/-- The repairer that takes notes of what it asks of its router. -/
def Repairer.noting (note : ν → RouteRequest → ν) (rp : Repairer σ) : Repairer (σ × ν) where
  placement := rp.placement
  settings := rp.settings
  router := rp.router.noting note

/-- The router that counts its requests. -/
def Router.counting (router : Router σ) : Router (σ × Nat) where
  route p state r request :=
    let reply := router.route p state.1 r request
    { state := (reply.state, state.2 + 1), routing := reply.routing, outcome := reply.outcome }

/-- The repairer that counts what it asks of its router. -/
def Repairer.counting (rp : Repairer σ) : Repairer (σ × Nat) where
  placement := rp.placement
  settings := rp.settings
  router := rp.router.counting

/-- The repairer that records what it asks of its router. -/
def Repairer.recording (rp : Repairer σ) : Repairer (σ × List RouteRequest) :=
  rp.noting fun requests request => requests ++ [request]

/-- What the router is asked in a round on a connection. -/
def Round.request (rd : Round) (c : Ranked) : RouteRequest where
  net := c.net
  sinks := [c.sink]
  avoid := rd.avoid

/-- What the router is asked for the sake of a connection that was picked. -/
def Pick.requests (pick : Pick) : List RouteRequest := pick.rounds.map (·.request pick.candidate)

/-- The repair of a connection with notes, of which `first` were there before
its first round. -/
def Progress.noted (note : ν → RouteRequest → ν) (c : Ranked) (first : ν) (pg : Progress σ) :
    Progress (σ × ν) :=
  { pg with state := (pg.state, (pg.rounds.map (·.request c)).foldl note first) }

/-- A session with notes. -/
def Session.noted (note : ν → RouteRequest → ν) (first : ν) (s : Session σ) : Session (σ × ν) :=
  { s with state := (s.state, (s.picks.flatMap Pick.requests).foldl note first) }

/-- A finished session with notes. -/
def RepairResult.noted (note : ν → RouteRequest → ν) (first : ν) (result : RepairResult σ) :
    RepairResult (σ × ν) :=
  { result with state := (result.state, (result.picks.flatMap Pick.requests).foldl note first) }

/-- A finished session with a count. -/
def RepairResult.counted (result : RepairResult σ) : RepairResult (σ × Nat) :=
  { result with state := (result.state, (result.picks.flatMap (·.rounds)).length) }

namespace Repairer

variable {rp : Repairer σ} {note : ν → RouteRequest → ν} {first : ν} {c : Ranked} {kept : NodeSet}
  {before : Routing}

/-! ## One connection -/

/-- **A round is one request**, if it asks the router at all. -/
theorem round_noting (pg : Progress σ) :
    (rp.noting note).round c kept (pg.noted note c first) =
      ((rp.round c kept pg).1.noted note c first, (rp.round c kept pg).2) := by
  have hplan : (rp.noting note).plan c kept (pg.noted note c first).routing =
      rp.plan c kept pg.routing := rfl
  unfold round
  rw [hplan]
  cases rp.plan c kept pg.routing with
  | error e => rfl
  | ok planned =>
    obtain ⟨branch, nodes⟩ := planned
    -- one request, and one round more
    have hnote : ∀ rd : Round, ((pg.rounds ++ [rd]).map (·.request c)).foldl note first =
        note ((pg.rounds.map (·.request c)).foldl note first) (rd.request c) := fun rd => by
      rw [List.map_append, List.foldl_append, List.map_singleton, List.foldl_cons, List.foldl_nil]
    dsimp only [noting, Router.noting, Progress.noted]
    split
    · rw [hnote]
      rfl
    · rw [hnote]
      rfl
    · split
      · rw [hnote]
        rfl
      · rw [hnote]
        rfl

theorem giveUp_noting (pg : Progress σ) (lengthAfter : Option Nat) (reason : RepairFailure) :
    (rp.noting note).giveUp c before (pg.noted note c first) lengthAfter reason =
      ((rp.giveUp c before pg lengthAfter reason).1.noted note c first,
        (rp.giveUp c before pg lengthAfter reason).2) := by
  unfold giveUp
  dsimp only [noting]
  cases rp.placement.net c.net <;> rfl

theorem rounds_noting (pg : Progress σ) (further : Nat) :
    (rp.noting note).rounds c kept before (pg.noted note c first) further =
      ((rp.rounds c kept before pg further).1.noted note c first,
        (rp.rounds c kept before pg further).2) := by
  have hthreshold : (rp.noting note).threshold = rp.threshold := rfl
  fun_induction rp.rounds c kept before pg further with
  | case1 further pg pg' e h => rw [rounds, round_noting, h]
  | case2 further pg pg' h => rw [rounds, round_noting, h]; exact giveUp_noting ..
  | case3 further pg pg' grew h => rw [rounds, round_noting, h]; exact giveUp_noting ..
  | case4 further pg pg' length grew h hlong =>
    rw [rounds, round_noting, h]
    exact if_pos hlong
  | case5 further pg pg' length grew h hlong hgrew =>
    rw [rounds, round_noting, h]
    simp only [hthreshold, if_neg hlong, if_pos hgrew, giveUp_noting]
  | case6 pg pg' length grew h hlong hgrew =>
    rw [rounds, round_noting, h]
    simp only [hthreshold, if_neg hlong, if_neg hgrew, giveUp_noting]
  | case7 pg pg' length grew h hlong hgrew further ih =>
    rw [rounds, round_noting, h]
    simp only [hthreshold, if_neg hlong, if_neg hgrew, ih]

theorem repairOne_noting (state : σ) (r : Routing) :
    (rp.noting note).repairOne c (state, first) r =
      ((rp.repairOne c state r).1.noted note c first, (rp.repairOne c state r).2) := by
  have hkept :
      ((rp.noting note).placement.net c.net >>= fun _ => (rp.noting note).placement.keptNodes c) =
        (rp.placement.net c.net >>= fun _ => rp.placement.keptNodes c) := rfl
  unfold repairOne
  rw [hkept]
  cases rp.placement.net c.net >>= fun _ => rp.placement.keptNodes c with
  | error e => rfl
  | ok kept => exact rounds_noting { state, routing := r } _

/-! ## A session -/

theorem requeue_noting (s : Session σ) (net : NetId) :
    (rp.noting note).requeue (s.noted note first) net =
      ((rp.requeue s net).1.noted note first, (rp.requeue s net).2) := by
  unfold requeue
  dsimp only [noting, Session.noted]
  cases (rp.placement.measureNet rp.settings.weighting s.routing net).outcome <;> rfl

/-- **A pick takes notes of its rounds.** -/
theorem pick_noting (s : Session σ) (rest : List Queued) :
    (rp.noting note).pick (s.noted note first) c rest =
      ((rp.pick s c rest).1.noted note first, (rp.pick s c rest).2) := by
  have hrep : (rp.noting note).repairOne c (s.noted note first).state
      (s.noted note first).routing =
        ((rp.repairOne c s.state s.routing).1.noted note c
          ((s.picks.flatMap Pick.requests).foldl note first),
          (rp.repairOne c s.state s.routing).2) := repairOne_noting ..
  unfold pick
  rw [hrep]
  generalize rp.repairOne c s.state s.routing = rep
  obtain ⟨pg, out⟩ := rep
  have hnotes : ∀ pick : Pick, ((s.picks ++ [pick]).flatMap Pick.requests).foldl note first =
      pick.requests.foldl note ((s.picks.flatMap Pick.requests).foldl note first) := by
    intro pick
    rw [List.flatMap_append, List.foldl_append, List.flatMap_singleton]
  cases out with
  | stopped e =>
    simp only [Session.noted, Progress.noted, hnotes]
    rfl
  | _ =>
    dsimp only
    rw [← requeue_noting]
    simp only [Session.noted, Progress.noted, hnotes]
    rfl

theorem run_noting (s : Session σ) :
    (rp.noting note).run (s.noted note first) = ((rp.run s).1.noted note first, (rp.run s).2) := by
  have hthreshold : (rp.noting note).threshold = rp.threshold := rfl
  have hused : ∀ s : Session σ,
      (rp.noting note).isLimitUsed (s.noted note first) = rp.isLimitUsed s := fun _ => rfl
  have hnext : ∀ s : Session σ, (s.noted note first).next? = s.next? := fun _ => rfl
  fun_induction rp.run s with
  | case1 s h =>
    rw [run_eq]
    simp only [hnext, h]
  | case2 s c rest h hc =>
    rw [run_eq]
    simp only [hnext, h, hthreshold, if_pos hc]
  | case3 s c rest h hc hlimit =>
    rw [run_eq]
    simp only [hnext, h, hthreshold, if_neg hc, hused, if_pos hlimit]
  | case4 s c rest h hc hlimit s' e hp =>
    rw [run_eq]
    simp only [hnext, h, hthreshold, if_neg hc, hused, if_neg hlimit, pick_noting, hp]
  | case5 s c rest h hc hlimit s' hp ih =>
    rw [run_eq]
    simp only [hnext, h, hthreshold, if_neg hc, hused, if_neg hlimit, pick_noting, hp, ih]

/-- **A repair that takes notes of its requests** is the repair that does not,
and takes note of every round. -/
theorem repair_noting (rp : Repairer σ) (note : ν → RouteRequest → ν) (first : ν) (state : σ)
    (r : Routing) :
    (rp.noting note).repair (state, first) r = (rp.repair state r).noted note first := by
  have hmeasure : (rp.noting note).placement.measure (rp.noting note).settings r =
      rp.placement.measure rp.settings r := rfl
  unfold repair
  rw [hmeasure]
  cases hm : (rp.placement.measure rp.settings r).outcome with
  | error e =>
    simp only [hm]
    rfl
  | ok m =>
    have hstart :
        (rp.noting note).start (state, first) r m (rp.placement.measure rp.settings r).events =
          (rp.start state r m (rp.placement.measure rp.settings r).events).noted note first := rfl
    simp only [hm, hstart, run_noting]
    rfl

/-- **A repair that counts its requests** is the repair that does not, and
counts the rounds. -/
theorem repair_counting (rp : Repairer σ) (state : σ) (r : Routing) :
    rp.counting.repair (state, 0) r = (rp.repair state r).counted := by
  have hcount : ∀ requests : List RouteRequest,
      requests.foldl (fun n _ => n + 1) 0 = requests.length := by simp
  have hrounds : ∀ picks : List Pick,
      (picks.flatMap Pick.requests).length = (picks.flatMap (·.rounds)).length := by
    simp [List.length_flatMap, Pick.requests]
  have hnoting : rp.counting = rp.noting fun n _ => n + 1 := rfl
  rw [hnoting, repair_noting, RepairResult.noted, hcount, hrounds, RepairResult.counted]

/-- **A repair that records its requests** records one for every round. -/
theorem repair_recording (rp : Repairer σ) (state : σ) (r : Routing) :
    rp.recording.repair (state, []) r =
      { rp.repair state r with
        state := ((rp.repair state r).state,
          (rp.repair state r).picks.flatMap Pick.requests) } := by
  have hall : ∀ requests seen : List RouteRequest,
      requests.foldl (fun seen request => seen ++ [request]) seen = seen ++ requests := by
    intro requests
    induction requests with
    | nil => simp
    | cons request requests ih => simp [ih]
  rw [recording, repair_noting, RepairResult.noted, hall, List.nil_append]

end Repairer

end HoldMargin
