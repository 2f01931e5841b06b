import SystemProgramming.Semaphore.Counting
import SystemProgramming.Foundations.Waiting

/-! Threads that wait and post: when they come to rest, and how many of them are stuck then. -/

namespace SystemProgramming.Semaphore

open Foundations Monitor

variable {Thread : Type*} [DecidableEq Thread] [Fintype Thread] {value maxVal : Int}
  {trace : List (Transition (Monitor.State Semamore Call Unit Thread)
    (Monitor.Action Call Unit Thread))} {final : Monitor.State Semamore Call Unit Thread}

/-- How many calls of one of the two functions were begun. -/
def begun (call : Call) (trace : List (Transition (Monitor.State Semamore Call Unit Thread)
    (Monitor.Action Call Unit Thread))) : Nat :=
  (calls trace).countP (· == call)

/-- Both functions are carried out when they need not wait. -/
theorem serves (s : Semamore) : semamoreMonitor.Serves s :=
  fun _ _ => ⟨(), _, rfl⟩

end SystemProgramming.Semaphore
