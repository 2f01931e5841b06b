import Mathlib.Algebra.Order.BigOperators.Group.List
import Mathlib.Data.Rat.Floor
import Mathlib.Tactic.Linarith
import SystemProgramming.Scheduling.Rotation
import SystemProgramming.Scheduling.Statistics

/-!
The averages that the scheduler reports, and those of the times that were passed to it. The stored
arrival is an `int`, and the stored start time is one less than that of the first eviction.
-/

namespace SystemProgramming.Scheduling

open Foundations

section Means

variable {Job : Type*} {jobs : List Job} {total : ℚ} {count : Nat} {f g : Job → ℚ}

/-- Sums differ by the sum of the differences. -/
theorem sum_map_sub : (jobs.map fun job => f job - g job).sum = (jobs.map f).sum - (jobs.map g).sum := by
  induction jobs with
  | nil => simp
  | cons job jobs ih =>
    simp only [List.map_cons, List.sum_cons, ih]
    ring

/-- A sum of triples is the triple of the sums. -/
theorem sum_triples {h : Job → ℚ} :
    (jobs.map fun job => (f job, g job, h job)).sum =
      ((jobs.map f).sum, (jobs.map g).sum, (jobs.map h).sum) := by
  induction jobs with
  | nil => rfl
  | cons job jobs ih => simp only [List.map_cons, List.sum_cons, ih, Prod.mk_add_mk]

end Means

variable {Job Heap : Type*} [DecidableEq Job] {queue : PriorityQueue Job Heap}
  {Ordered : (Job → Job → Int) → Heap → Prop} {st after final : State Job Heap}
  {job : Job} {now time : ℚ} {event : Event Job} {scheme : Scheme}
  {trace : List (Transition (State Job Heap) (Event Job))}

section Punctuality

/-- When a job comes is when the call is made. -/
theorem time_of_brings {schedData : SchedulerInfo}
    (brings : event.brings job = some (time, schedData)) : time = event.time := by
  cases event with
  | newJob new _ _ _ =>
    rw [Event.brings] at brings
    split at brings
    · cases brings
      rfl
    · cases brings
  | dispatch _ _ | expire _ _ _ | finish _ _ => cases brings

/-- A job that has come did so before now. -/
theorem Recorded.arrival_le (recorded : Recorded queue Ordered trace st)
    (offered : job ∈ st.offered) (past : ∀ taken ∈ trace, taken.action.time ≤ now) :
    arrival trace job ≤ now := by
  obtain ⟨⟨time, schedData⟩, seen⟩ := Option.isSome_iff_exists.mp ((recorded.brought job).mpr offered)
  obtain ⟨taken, member, brings⟩ := exists_of_firstSeen seen
  rw [arrival, seen]
  exact time_of_brings brings ▸ past taken member

/-- No job was returned or has run before it came, and none has run longer than since then. -/
structure Punctual (queue : PriorityQueue Job Heap)
    (trace : List (Transition (State Job Heap) (Event Job))) (st : State Job Heap) : Prop where
  since : ∀ job, st.running = some job → ∃ taken ∈ trace, taken.action.time = st.since
  unseen : ∀ job, job ∉ st.offered → st.received job = 0
  nonneg : ∀ job, 0 ≤ st.received job
  returned : ∀ job, (firstSeen (Event.returns job) trace).isSome →
    job ∈ st.offered ∧ arrival trace job ≤ firstReturn trace job
  waits : ∀ job ∈ st.jobs queue, ∀ now, (∀ taken ∈ trace, taken.action.time ≤ now) →
    st.received job ≤ now - arrival trace job
  runs : ∀ job, st.running = some job → st.received job ≤ st.since - arrival trace job
  ended : ∀ job ∈ st.finished, st.received job ≤ finishTime trace job - arrival trace job

namespace Punctual

variable (punctual : Punctual queue trace st) (step : Step queue st event after)
  (past : ∀ taken ∈ trace, taken.action.time ≤ event.time)
  (recorded : Recorded queue Ordered trace st)

include punctual step

/-- What runs has run since some call. -/
theorem since_step (job : Job) (runs : after.running = some job) :
    ∃ taken ∈ trace ++ [⟨st, event, after⟩], taken.action.time = after.since := by
  cases step with
  | newJob _ =>
    obtain ⟨taken, member, same⟩ := punctual.since job runs
    exact ⟨taken, List.mem_append_left _ member, same⟩
  | dispatch _ _ | expire _ _ => exact ⟨_, List.mem_append_right _ (List.mem_singleton_self _), rfl⟩
  | finish _ _ => cases runs

include past

/-- Time does not run backwards. -/
theorem nonneg_step (job : Job) : 0 ≤ after.received job := by
  have before := punctual.nonneg
  cases step with
  | newJob _ | dispatch _ _ => exact before job
  | @expire stopped time _ _ runs _ | @finish stopped time _ runs _ =>
    obtain ⟨taken, member, same⟩ := punctual.since stopped runs
    have later : st.since ≤ time := same ▸ past taken member
    show 0 ≤ st.stop stopped time job
    by_cases mine : job = stopped
    · subst mine
      rw [State.stop, Function.update_self]
      linarith [before job]
    · rw [State.stop, Function.update_of_ne mine]
      exact before job

include recorded

/-- A job that is returned has come before. -/
theorem returned_step (lawful : queue.Lawful Ordered) (job : Job)
    (seen : (firstSeen (Event.returns job) (trace ++ [⟨st, event, after⟩])).isSome) :
    job ∈ after.offered ∧ arrival (trace ++ [⟨st, event, after⟩]) job ≤
      firstReturn (trace ++ [⟨st, event, after⟩]) job := by
  have more : job ∈ st.offered → job ∈ after.offered := by
    intro offered
    cases step with
    | newJob _ => exact List.mem_append_left _ offered
    | dispatch _ _ | expire _ _ | finish _ _ => exact offered
  by_cases old : (firstSeen (Event.returns job) trace).isSome
  · obtain ⟨offered, before⟩ := punctual.returned job old
    rw [(recorded.arrival_append offered _).1, firstReturn, firstSeen_of_isSome old]
    exact ⟨more offered, before⟩
  · rw [firstSeen_append, Option.not_isSome_iff_eq_none.mp old, Option.none_or, Event.returns] at seen
    split at seen
    next returned =>
      -- It was taken from those that run or wait.
      have asks : event.Asks := by
        by_contra quiet
        rw [returned_of_not_asks quiet] at returned
        cases returned
      have served := recorded.proper.served_of_step lawful step asks
      have waits : job ∈ st.jobs queue := by
        rw [← served.jobs, returned]
        exact Multiset.mem_cons_self _ _
      have offered := (recorded.proper.mem_jobs_iff.mp waits).1
      rw [(recorded.arrival_append offered _).1, firstReturn, firstSeen_append,
        Option.not_isSome_iff_eq_none.mp old, Event.returns, if_pos returned]
      exact ⟨more offered, recorded.arrival_le offered past⟩
    · cases seen

/-- A job that runs or waits has not run longer than since it came. -/
theorem waits_step (lawful : queue.Lawful Ordered) (job : Job) (member : job ∈ after.jobs queue)
    (now : ℚ) (bound : ∀ taken ∈ trace ++ [⟨st, event, after⟩], taken.action.time ≤ now) :
    after.received job ≤ now - arrival (trace ++ [⟨st, event, after⟩]) job := by
  have before : ∀ taken ∈ trace, taken.action.time ≤ now :=
    fun taken member => bound taken (List.mem_append_left _ member)
  have current : event.time ≤ now := bound ⟨st, event, after⟩ (by simp)
  cases recorded.proper.fate lawful step member with
  | stays waits _ same =>
    rw [same, (recorded.arrival_append (recorded.proper.mem_jobs_iff.mp waits).1 _).1]
    exact punctual.waits job waits now before
  | comes came fresh _ same =>
    subst came
    rw [same, punctual.unseen job fresh, arrival, recorded.brings_newJob fresh]
    exact sub_nonneg.mpr current
  | @stops time returned stopped runs _ same =>
    subst stopped
    have waits : job ∈ st.jobs queue := mem_together_iff.mpr (.inl runs)
    rw [same, (recorded.arrival_append (recorded.proper.mem_jobs_iff.mp waits).1 _).1]
    have ran := punctual.runs job runs
    have stop : time ≤ now := current
    linarith

/-- What runs had not run longer when it began. -/
theorem runs_step (lawful : queue.Lawful Ordered) (job : Job) (runs : after.running = some job) :
    after.received job ≤ after.since - arrival (trace ++ [⟨st, event, after⟩]) job := by
  have bound : ∀ taken ∈ trace ++ [⟨st, event, after⟩], taken.action.time ≤ event.time := by
    intro taken member
    rcases List.mem_append.mp member with old | new
    · exact past taken old
    · rw [List.mem_singleton.mp new]
  have waits := punctual.waits_step step past recorded lawful job
    (mem_together_iff.mpr (.inl runs)) event.time bound
  cases step with
  | newJob fresh =>
    have before : job ∈ st.jobs queue := mem_together_iff.mpr (.inl runs)
    rw [(recorded.arrival_append (recorded.proper.mem_jobs_iff.mp before).1 _).1]
    exact punctual.runs job runs
  | dispatch _ _ | expire _ _ => exact waits
  | finish _ _ => cases runs

/-- A job that is finished had not run longer than since it came. -/
theorem ended_step (job : Job) (finished : job ∈ after.finished) :
    after.received job ≤ finishTime (trace ++ [⟨st, event, after⟩]) job -
      arrival (trace ++ [⟨st, event, after⟩]) job := by
  have apart : ∀ other, st.running = some other → job ∈ st.finished → job ≠ other := by
    intro other runs old same
    exact (recorded.proper.mem_jobs_iff.mp (mem_together_iff.mpr (.inl runs))).2 (same ▸ old)
  -- Nothing is added to a job that was finished before.
  have kept : job ∈ st.finished → after.received job = st.received job →
      after.received job ≤ finishTime (trace ++ [⟨st, event, after⟩]) job -
        arrival (trace ++ [⟨st, event, after⟩]) job := by
    intro old same
    rw [same, recorded.finishTime_append old,
      (recorded.arrival_append (recorded.proper.offered job old) _).1]
    exact punctual.ended job old
  cases step with
  | newJob _ | dispatch _ _ => exact kept finished rfl
  | expire runs _ =>
    exact kept finished (Function.update_of_ne (apart _ runs finished) _ _)
  | @finish done time sched runs _ =>
    rcases List.mem_append.mp finished with old | new
    · exact kept old (Function.update_of_ne (apart _ runs old) _ _)
    · obtain rfl := List.mem_singleton.mp new
      have waits := recorded.proper.mem_jobs_iff.mp (mem_together_iff.mpr (.inl runs))
      have none := Option.not_isSome_iff_eq_none.mp ((recorded.ended job).not.mpr waits.2)
      have ran := punctual.runs job runs
      rw [(recorded.arrival_append waits.1 _).1, finishTime, firstSeen_append, none]
      show st.stop job time job ≤ _
      rw [State.stop, Function.update_self]
      simp only [Event.ends, if_pos, Option.none_or, Option.getD_some]
      linarith

/-- Every call that is not earlier than the last one keeps this. -/
theorem next (lawful : queue.Lawful Ordered) :
    Punctual queue (trace ++ [⟨st, event, after⟩]) after where
  since := punctual.since_step step
  unseen := recorded.proper.unseen_step step punctual.unseen
  nonneg := punctual.nonneg_step step past
  returned := punctual.returned_step step past recorded lawful
  waits := punctual.waits_step step past recorded lawful
  runs := punctual.runs_step step past recorded lawful
  ended := punctual.ended_step step past recorded

end Punctual

end Punctuality

section Times

variable (trace : List (Transition (State Job Heap) (Event Job))) (job : Job)

end Times

section Truncation

variable {value : ℚ}

/-- Of a number that is not negative, the fraction is cut off. -/
theorem sub_truncate (nonneg : 0 ≤ value) : value - truncate value = Int.fract value := by
  have floor : truncate value = ⌊value⌋ := by
    rw [truncate, Int.tdiv_eq_ediv_of_nonneg (Rat.num_nonneg.mpr nonneg), Rat.floor_def']
  rw [floor, Int.self_sub_floor]

end Truncation

section Results

/-- All jobs that came are finished. -/
def Complete (st : State Job Heap) : Prop := ∀ job ∈ st.offered, job ∈ st.finished

instance decidableComplete (st : State Job Heap) : Decidable (Complete st) :=
  inferInstanceAs (Decidable (∀ job ∈ st.offered, job ∈ st.finished))

/-- When all jobs are finished, the totals count the jobs that came. -/
theorem Recorded.totals_of_complete (recorded : Recorded queue Ordered trace st)
    (complete : Complete st) : st.scheduler.totals = (st.offered.map (counted trace)).sum := by
  have same : st.finished.Perm st.offered := by
    refine (List.perm_ext_iff_of_nodup recorded.finished_nodup recorded.offered_nodup).mpr ?_
    exact fun job => ⟨recorded.proper.offered job, complete job⟩
  rw [recorded.totals]
  exact (same.map _).sum_eq

/-- What the totals of a run are whose jobs are all finished. -/
theorem Recorded.sums (recorded : Recorded queue Ordered trace st) (complete : Complete st) :
    st.scheduler.totalTurnaround =
        (st.offered.map fun job => finishTime trace job - truncate (arrival trace job)).sum ∧
      st.scheduler.totalWaiting = (st.offered.map fun job =>
        finishTime trace job - truncate (arrival trace job) - runningTime trace job).sum ∧
      st.scheduler.totalResponse =
        (st.offered.map fun job => storedStart trace job - truncate (arrival trace job)).sum := by
  have totals := (recorded.totals_of_complete complete).trans sum_triples
  simp only [Scheduler.totals, Prod.mk.injEq] at totals
  exact totals

end Results

section Samples

/-- A state after a job is finished. -/
def finishedTo (st : State Nat (List Nat)) (job : Nat) (time : ℚ) : State Nat (List Nat) :=
  match schedulerJobFinished st.scheduler job time with
  | some sched =>
    { st with
      scheduler := sched, running := none, finished := st.finished ++ [job]
      received := st.stop job time }
  | none => st

/-- A job comes and is returned at the same time. -/
def broughtAt (time : ℚ) : State Nat (List Nat) :=
  dispatchedTo (offeredTo (start PriorityQueue.sortedList .FCFS) 1 time ⟨1, 1⟩) time 1

/-- The calls for a job that runs for one unit, without being evicted. -/
def alone (time : ℚ) : List (Transition (State Nat (List Nat)) (Event Nat)) :=
  [⟨start PriorityQueue.sortedList .FCFS, .newJob 1 1 time ⟨1, 1⟩,
      offeredTo (start PriorityQueue.sortedList .FCFS) 1 time ⟨1, 1⟩⟩,
    ⟨offeredTo (start PriorityQueue.sortedList .FCFS) 1 time ⟨1, 1⟩, .dispatch time (some 1),
      broughtAt time⟩,
    ⟨broughtAt time, .finish 1 (time + 1), finishedTo (broughtAt time) 1 (time + 1)⟩]

end Samples

end SystemProgramming.Scheduling
