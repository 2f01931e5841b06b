import SystemProgramming.ParallelMake.Schedule

/-! What `parmake` is for: which targets are made, whatever the workers do and whatever else is asked. -/

namespace SystemProgramming.ParallelMake

open Foundations

section Meaning

variable {Target : Type*} {rules : Rules Target} {outcomes : Outcomes Target} {list : List Target}
  {state : Target → Int} {target : Target}

/-- What holds of each target once it holds of its dependencies holds of all targets of a list. -/
theorem PostOrdered.induct {Holds : Target → Prop} (ordered : PostOrdered rules list)
    (next : ∀ target ∈ list, (∀ dependency ∈ rules.dependencies target, Holds dependency) →
      Holds target) : ∀ target ∈ list, Holds target := by
  -- The last target of the list depends on targets before it only.
  induction list using List.reverseRecOn with
  | nil => exact fun target member => by cases member
  | append_singleton front last ih =>
    have known := ih ordered.init fun target member => next target (by simp [member])
    intro target member
    rcases List.mem_append.mp member with inFront | isLast
    · exact known target inFront
    · obtain rfl := List.mem_singleton.mp isLast
      exact next target member fun dependency needed =>
        known dependency (ordered.last dependency needed)

variable [DecidableEq Target]

end Meaning

variable {Target Worker : Type*} {rules : Rules Target} {outcomes : Outcomes Target}
  {work goals : List Target} {fuel : Nat}
  {trace : List (Transition (State Target Worker) (Action Target Worker))}
  {final : State Target Worker} [DecidableEq Target] [DecidableEq Worker]

end SystemProgramming.ParallelMake
