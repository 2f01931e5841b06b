import SystemProgramming.ParallelMake.Within
import SystemProgramming.ParallelMake.Schedule
import SystemProgramming.Foundations.Potential

/-! How long the workers can go on: every run is bounded, and ends only when all workers have exited. -/

namespace SystemProgramming.ParallelMake

open Foundations

section Potential

variable {Target Worker : Type*}

/-- How much a worker can still do from a place, without another target; broadcasts wake others. -/
def Place.weight (workers : Nat) : Place Target → Nat
  | exited => 0
  | parked => 0
  | missed => 1
  | ready => 2
  | woken => 3
  | setting _ _ => 3 * workers + 3
  | executing _ => 3 * workers + 4
  | scanned _ _ => 3 * workers + 5

/-- How much the workers can still do. -/
def State.potential [Fintype Worker] (st : State Target Worker) : Nat :=
  total (Place.weight (Fintype.card Worker)) st.place +
    (3 * Fintype.card Worker + 4) * st.allVertexDfs.length

/-- A wakeup that nobody asked for. -/
def Event.isSpurious : Event Target → Bool
  | spurious => true
  | _ => false

/-- The broadcast costs at most one turn of each worker. -/
theorem Place.weight_signaled (workers : Nat) (place : Place Target) :
    place.signaled.weight workers ≤ place.weight workers + 3 := by
  cases place <;> simp [signaled, weight]

end Potential

variable {Target Worker : Type*} [Fintype Worker]
  {rules : Rules Target} {work goals : List Target} {fuel : Nat}
  {st after final : State Target Worker} {worker : Worker} {action : Action Target Worker}
  {trace : List (Transition (State Target Worker) (Action Target Worker))}

/-- At first every worker has one turn to do, and the whole list is left. -/
theorem potential_start : (start work : State Target Worker).potential =
    2 * Fintype.card Worker + (3 * Fintype.card Worker + 4) * work.length := by
  simp only [State.potential, total, start, Place.weight, Finset.sum_const, Finset.card_univ]
  rw [Nat.mul_comm 2]
  rfl

variable [DecidableEq Worker]

/-- A worker that moves changes the potential by the weights of its two places. -/
theorem potential_goto (worker : Worker) (next : Place Target) (lock : Option Worker) :
    ({ st.goto worker next with targetMut := lock } : State Target Worker).potential +
        (st.place worker).weight (Fintype.card Worker) =
      st.potential + next.weight (Fintype.card Worker) := by
  have moved := total_update (Place.weight (Fintype.card Worker)) st.place worker next
  simp only [State.potential, State.goto]
  omega

/-- A worker that moves to a place with less to do takes from the potential. -/
theorem potential_less {next : Place Target} {lock : Option Worker}
    (less : next.weight (Fintype.card Worker) < (st.place worker).weight (Fintype.card Worker)) :
    ({ st.goto worker next with targetMut := lock } : State Target Worker).potential + 1 ≤
      st.potential := by
  have moved := @potential_goto Target Worker _ st _ worker next lock
  omega

/-- The broadcast of a worker that has set a state costs less than that worker had left. -/
theorem potential_setState {target : Target} {newState : Int} (state : Target → Int)
    (place : st.place worker = .setting target newState) :
    ({ st with
        state := state
        place := Function.update (fun other => (st.place other).signaled) worker .ready } :
      State Target Worker).potential + 1 ≤ st.potential := by
  -- All that wait are woken, and each of them scans the list once more.
  have woken := @total_le Worker _ _ (Place.weight (Fintype.card Worker)) st.place
    (fun other => (st.place other).signaled) 3 fun other => Place.weight_signaled _ _
  have moved := total_update (Place.weight (Fintype.card Worker))
    (fun other => (st.place other).signaled) worker .ready
  have still : (st.place worker).signaled = .setting target newState := by rw [place]; rfl
  simp only [still, Place.weight] at moved
  simp only [State.potential]
  omega

variable [DecidableEq Target]

/-- Every step takes from the potential, but for the wakeups that nobody asked for. -/
theorem Step.potential_falls (step : Step rules st action after) :
    after.potential + 1 ≤ st.potential + if action.event.isSpurious then 4 else 0 := by
  cases step with
  | exit place => exact potential_less (by simp [place, Place.weight])
  | @take worker target verdict place free found =>
    -- A target is taken from the list, and the worker has all of its work before it.
    have removed := List.length_erase_of_mem (scan_some found).1
    have some := List.length_pos_of_mem (scan_some found).1
    have taken := total_update (Place.weight (Fintype.card Worker)) st.place worker
      (.scanned target verdict)
    obtain ⟨rest, length⟩ := Nat.exists_eq_succ_of_ne_zero (Nat.ne_of_gt some)
    simp only [place, Place.weight] at taken
    simp only [State.potential, State.goto, removed, Event.isSpurious, Bool.false_eq_true, if_false,
      length, Nat.succ_sub_one, Nat.mul_succ]
    omega
  | miss place => exact potential_less (by simp [place, Place.weight])
  | park place => exact potential_less (by simp [place, Place.weight])
  | check place =>
    -- The commands are executed, or the state is set at once.
    refine potential_less ?_
    split <;> simp [place, Place.weight]
  | skip place => exact potential_less (by simp [place, Place.weight])
  | execute place => exact potential_less (by simp [place, Place.weight])
  | setState place => exact potential_setState _ place
  | wake place => exact potential_less (by simp [place, Place.weight])
  | @spurious worker place =>
    -- A worker that wakes up for nothing scans the list once more.
    have moved : (st.goto worker .woken).potential + (st.place worker).weight _ =
      st.potential + 3 := potential_goto worker .woken st.targetMut
    rw [place] at moved
    show (st.goto worker .woken).potential + 1 ≤ st.potential + 4
    simp only [Place.weight] at moved
    omega

/-- A run is bounded by the potential that it starts with and by the spurious wakeups. -/
theorem length_le_of_run (run : Run (Step rules) (start work) trace final) :
    trace.length ≤ 2 * Fintype.card Worker + (3 * Fintype.card Worker + 4) * work.length +
      4 * (trace.countP fun taken => taken.action.event.isSpurious) := by
  have bound := @Run.length_le _ _ _ _ _ _ State.potential (fun action => action.event.isSpurious)
    4 run fun _ _ _ step => step.potential_falls
  rw [potential_start] at bound
  omega

omit [Fintype Worker] in
/-- When no worker can go on, every worker has exited. -/
theorem exited_of_stuck (built : workList rules fuel goals = some work)
    (run : Run (Step rules) (start work) trace final)
    (stuck : ∀ worker, ¬ CanStep rules final worker) (worker : Worker) :
    final.place worker = .exited := by
  by_contra alive
  obtain ⟨nodup, ordered⟩ := workList_sound built
  have awake := awake_of_run nodup ordered.within_acyclic ordered.within.closed (within_of_run run).1
  obtain ⟨other, lively⟩ := awake.someone alive
  -- Whoever has the lock can go on; if nobody has it, the active worker can.
  cases lock : final.targetMut with
  | none => exact stuck other (can_step_of_active lively (.inr lock))
  | some owner => exact stuck owner (can_step_of_holds ((awake.lock owner).mp lock))

/--
Every run of the workers is finite: without wakeups that nobody asked for, its length is bounded by
the numbers of targets and workers, and each such wakeup adds at most four steps. A run that cannot
be continued has come to its end, with every worker exited.
-/
theorem workers_terminate (built : workList rules fuel goals = some work)
    (run : Run (Step rules) (start work) trace final) :
    trace.length ≤ 2 * Fintype.card Worker + (3 * Fintype.card Worker + 4) * work.length +
        4 * (trace.countP fun taken => taken.action.event.isSpurious) ∧
      ((∀ worker, ¬ CanStep rules final worker) → ∀ worker, final.place worker = .exited) :=
  ⟨length_le_of_run run, exited_of_stuck built run⟩

/-- The complete run of the one worker takes eight of the sixteen steps that it may take. -/
theorem workers_terminate_sample : (sampleTrace ++ sampleRest).length ≤ 16 := by
  have built : workList sampleRules 3 [0] = some [1, 0] := by decide
  exact (workers_terminate built complete_run).1

end SystemProgramming.ParallelMake
