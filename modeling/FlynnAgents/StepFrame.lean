-- The frame of a step. A run of `step` opens with the start of an operation,
-- runs the body of its `try`, and closes with what that gave.
import FlynnAgents.Course

namespace FlynnAgents

open Programs Prog

variable {world : Nat → Beat} {s s₀ s₁ : Scene} {rt : Runtime}

namespace Runtime

/-- What `step` does up to the start of its operation. It gives the limit of the
time, the operation and its request. -/
def opening (rt : Runtime) (objective : String) (grants : Option (List String)) :
    Flow Exn (Option ℚ × String × InferenceRequest) := do
  acquire
  setRejected none
  let _ ← store .checkReady
  let limit ← store .secondsRemaining
  let effective := grants.getD rt.grants
  Prog.raiseIf (¬ effective ⊆ rt.grants)
    (contractError "Per-step grants cannot expand runtime authority")
  let base ← store .read
  let request ← rt.request objective base effective
  let (reservation, request) ← rt.reservation request
  let operationId ← newId
  let _ ← store (.start operationId request reservation
    (.typed (rt.guards.map DispatchGuard.id)))
  return (limit, operationId, request)

/-- The end of the `async with` of the time. -/
def expiring {α : Type} (limit : Option ℚ) (e : Exn) : Flow Exn α :=
  if e.isinstance .cancelledError && limit.isSome then do
    if ← expired e then Prog.raise timeoutError else Prog.raise e
  else Prog.raise e

/-- What `step` does with the end of its operation. -/
def closing (limit : Option ℚ) (x : Flow Exn StepResult) : Flow Exn StepResult :=
  (x.catching (expiring limit)).finally_ release

theorem closing_congr {limit : Option ℚ} {x y : Flow Exn StepResult} {s t : Scene}
    (h : x.run (Scene.answer world) s = y.run (Scene.answer world) t) :
    (closing limit x).run (Scene.answer world) s = (closing limit y).run (Scene.answer world) t :=
  run_finally_congr (run_catching_congr h)

/-- `step` is the body of its operation, opened and closed. -/
theorem run_step {objective : String} {grants : Option (List String)} {limit : Option ℚ}
    {o : String}
    {request : InferenceRequest}
    (h : (rt.opening objective grants).run (Scene.answer world) s₀ =
      (.ok (limit, o, request), s₁)) :
    (rt.step objective grants).run (Scene.answer world) s₀ =
      (closing limit ((rt.attempt o request).catching (rt.recordFailure o))).run
        (Scene.answer world) s₁ := by
  obtain ⟨_, t₁, h₁, h⟩ := run_bind_ok h
  obtain ⟨_, t₂, h₂, h⟩ := run_bind_ok h
  obtain ⟨_, t₃, h₃, h⟩ := run_bind_ok h
  obtain ⟨limit, t₄, h₄, h⟩ := run_bind_ok h
  obtain ⟨_, t₅, h₅, h⟩ := run_bind_ok h
  obtain ⟨base, t₆, h₆, h⟩ := run_bind_ok h
  obtain ⟨request, t₇, h₇, h⟩ := run_bind_ok h
  obtain ⟨⟨reservation, request'⟩, t₈, h₈, h⟩ := run_bind_ok h
  obtain ⟨o, t₉, h₉, h⟩ := run_bind_ok h
  obtain ⟨_, t₁₀, h₁₀, h⟩ := run_bind_ok h
  cases h
  unfold step locked
  rw [run_bind_of h₁]
  refine run_finally_congr ?_
  rw [run_bind_of h₂, run_bind_of h₃]
  unfold timeout
  rw [run_bind_of h₄]
  refine run_catching_congr ?_
  unfold stepBody
  rw [run_bind_of h₅, run_bind_of h₆, run_bind_of h₇, run_bind_of h₈, run_bind_of h₉]
  exact run_bind_of h₁₀

end Runtime

end FlynnAgents
