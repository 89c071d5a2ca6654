import HoldMargin.Entries
import HoldMargin.PassError
/-!
# Passes over a design

A pass computes a result, or stops with an error, and on its way registers
fabric entries and reports findings. What it registered and reported before
it stopped stays valid, so a pass is its events beside its outcome. The
result of a pass does not depend on what was registered before: events are
only ever added.
-/

namespace HoldMargin

/-- What happens beside the computation of a result. -/
inductive Event where
  /-- A fabric node is registered for an end of a connection. -/
  | entry (e : End) (node : NodeId)
  | finding (f : Finding)
deriving DecidableEq

/-- The events of a pass and its outcome. -/
structure Pass (α : Type) where
  events : List Event
  outcome : Except PassError α

namespace Pass

variable {α β : Type}

/-- The pass that only has a result. -/
def pure (a : α) : Pass α := ⟨[], .ok a⟩

/-- A pass and then, unless it stops, the pass its result leads to. -/
def bind (x : Pass α) (f : α → Pass β) : Pass β :=
  match x.outcome with
  | .ok a =>
    let next := f a
    ⟨x.events ++ next.events, next.outcome⟩
  | .error e => ⟨x.events, .error e⟩

instance : Monad Pass where
  pure := Pass.pure
  bind := Pass.bind

theorem bind_assoc {γ : Type} (x : Pass α) (f : α → Pass β) (g : β → Pass γ) :
    (x.bind f).bind g = x.bind fun a => (f a).bind g := by
  obtain ⟨events, outcome⟩ := x
  cases outcome with
  | error e => rfl
  | ok a =>
    simp only [bind]
    cases (f a).outcome <;> simp [List.append_assoc]

theorem id_map (x : Pass α) : id <$> x = x := by
  obtain ⟨events, outcome⟩ := x
  cases outcome <;> simp [Functor.map, bind, pure]

theorem pure_bind (a : α) (f : α → Pass β) : (Pass.pure a).bind f = f a := by
  simp [bind, pure]

instance : LawfulMonad Pass := .mk' Pass id_map pure_bind bind_assoc

/-- The pass that only has an outcome. -/
def ofExcept (outcome : Except PassError α) : Pass α := ⟨[], outcome⟩

instance : MonadLift (Except PassError) Pass := ⟨ofExcept⟩

/-- The pass that only registers a fabric node. -/
def register (e : End) (n : NodeId) : Pass Unit := ⟨[.entry e n], .ok ()⟩

/-- The pass that only reports a finding. -/
def report (f : Finding) : Pass Unit := ⟨[.finding f], .ok ()⟩

/-- The findings among events. -/
def findingsOf (events : List Event) : List Finding :=
  events.filterMap fun
    | .finding f => some f
    | .entry .. => none

/-- The register after some events. -/
def registerAll (es : Entries) (events : List Event) : Entries :=
  events.foldl (fun es event => match event with
    | .entry e n => es.register e n
    | .finding _ => es) es

/-- The events that only register nodes. -/
def silent (events : List Event) : List Event :=
  events.filter fun
    | .entry .. => true
    | .finding _ => false

end Pass

end HoldMargin
