import SystemProgramming.ParallelMake.CycleDetect
import SystemProgramming.ParallelMake.Goals
import SystemProgramming.ParallelMake.Termination

/-! `parmake` as a whole, on any rule graph: from the goals to what is made of them. -/

namespace SystemProgramming.ParallelMake

open Foundations

section Functions

variable {Target : Type*} [DecidableEq Target]

end Functions

variable {Target : Type*} {rules : Rules Target} {answer : Target → Int} {goals : List Target}
  {target : Target}

variable [DecidableEq Target]

/-- What `cycle_detect` answers for a goal, if it returns. -/
def Answers (rules : Rules Target) (answer : Target → Int) (target : Target) : Prop :=
  ∃ enough flag, (∀ fuel, enough ≤ fuel → cycleDetect rules fuel target none = some (flag, none)) ∧
    answer target = if flag then 1 else 0

variable {Worker : Type*} [DecidableEq Worker] [Nonempty Worker] {outcomes : Outcomes Target}

end SystemProgramming.ParallelMake
