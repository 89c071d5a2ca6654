import HoldMargin.Placement
/-!
# Routers

A router is asked to route sinks of a net without entering certain nodes,
and answers with the routing as it left it, whether it succeeded or not. It
may keep a state of its own from one request to the next. What a router
may do to the routing is not part of its type; a router that leaves the
routes of other nets alone is `Router.Confined`.
-/

namespace HoldMargin

/-- What a router is asked to do. -/
structure RouteRequest where
  net : NetId
  sinks : List PinId
  /-- The nodes not to be entered. -/
  avoid : NodeSet
deriving DecidableEq

/-- Why a router failed. -/
inductive RouterError where
  /-- No path to the sink is left. -/
  | noPath (sink : PinId)
  /-- The search for a path to the sink was given up after so many expansions. -/
  | budgetExhausted (sink : PinId) (limit : Nat)
  /-- The design and the device disagree. -/
  | model (error : PassError)
deriving DecidableEq

/-- The message of a failure. -/
def RouterError.message : RouterError → String
  | .noPath sink => s!"no legal path to sink pin {sink}"
  | .budgetExhausted sink limit =>
    s!"search budget of {limit} expansions exhausted for sink pin {sink}"
  | .model error => error.message

/-- What a router answers. -/
structure RouteReply (σ : Type) where
  /-- The router's state from now on. -/
  state : σ
  /-- The routing as the router left it. -/
  routing : Routing
  outcome : Except RouterError Unit

/-- A router with states in `σ`. -/
structure Router (σ : Type) where
  route : Placement → σ → Routing → RouteRequest → RouteReply σ

/-- A router is confined if a request changes the route of its net only. -/
def Router.Confined {σ : Type} (router : Router σ) : Prop :=
  ∀ (p : Placement) (state : σ) (r : Routing) (request : RouteRequest) (net : NetId),
    net ≠ request.net → (router.route p state r request).routing.of net = r.of net

end HoldMargin
