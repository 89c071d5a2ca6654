import HoldMargin.Proofs.Warranted
/-!
# No law is broken

Of all errors, `PassError.brokenLaw` is the one that no input is to blame
for, and nothing warrants it but a route that loops. What fails only with
what is warranted does not break a law (`FailsOnly.unbroken`); the plan of a
round needs a forest for it (`Repairer.unbroken_plan`).
-/

namespace HoldMargin

variable {α : Type}

/-- **A computation that does not fail for a broken law.** -/
def Unbroken (x : Except PassError α) : Prop := ∀ msg, x ≠ .error (.brokenLaw msg)

theorem FailsOnly.unbroken {p : Placement} {r : Routing} {x : Except PassError α}
    (h : FailsOnly (p.Warrants r) x) : Unbroken x := by
  intro msg he
  cases h _ he

namespace Placement

variable (p : Placement) (r : Routing)

theorem unbroken_measureNet (net : NetId) (w : Weighting) :
    Unbroken (p.measureNet w r net).outcome := failsOnly_measureNet.unbroken

theorem unbroken_measure (s : Settings) : Unbroken (p.measure s r).outcome :=
  (failsOnly_measure s).unbroken

end Placement

/-- **On a forest a round is planned without breaking a law.** -/
theorem Repairer.unbroken_plan {σ : Type} {rp : Repairer σ} {c : Ranked} {r : Routing}
    (hf : rp.placement.device.IsForest (r.of c.net)) (kept : NodeSet) :
    Unbroken (rp.plan c kept r) := by
  intro msg he
  rcases rp.failsOnly_plan c kept r _ he with hwarrants | ⟨-, hloop⟩
  · cases hwarrants
  · exact hf.acyclic _ hloop

/-- **The maze router breaks no law.** -/
theorem mazeRouter_ne_brokenLaw (p : Placement) (r : Routing) (request : RouteRequest)
    (limit : Nat) (msg : String) :
    ((mazeRouter limit).route p () r request).outcome ≠ .error (.model (.brokenLaw msg)) := by
  intro he
  cases mazeRouter_truthful limit p () r request _ he

end HoldMargin
