import Mathlib.Algebra.BigOperators.Group.List.Basic
import Mathlib.Algebra.Group.Prod
import SystemProgramming.Scheduling.Remaining

/-! The totals of the scheduler are sums over the finished jobs of what was stored for each of them. -/

namespace SystemProgramming.Scheduling

open Foundations

section Functions

variable {Job Heap : Type*}

/-- `scheduler_average_waiting_time`; zero divided by zero is not a number. -/
def schedulerAverageWaitingTime (sched : Scheduler Job Heap) : Option ℚ :=
  if sched.count = 0 then none else some (sched.totalWaiting / sched.count)

/-- `scheduler_average_turnaround_time`. -/
def schedulerAverageTurnaroundTime (sched : Scheduler Job Heap) : Option ℚ :=
  if sched.count = 0 then none else some (sched.totalTurnaround / sched.count)

end Functions

section Observations

variable {Job : Type*} [DecidableEq Job]

/-- When a call brings the job, and what it says about it. -/
def Event.brings (job : Job) : Event Job → Option (ℚ × SchedulerInfo)
  | newJob new _ time schedData => if new = job then some (time, schedData) else none
  | _ => none

/-- When a call returns the job. -/
def Event.returns (job : Job) (event : Event Job) : Option ℚ :=
  if event.returned = some job then some event.time else none

/-- The start time that a call stores for the job, unless that is the one of a new job again. -/
def Event.stores (job : Job) : Event Job → Option ℚ
  | expire evicted time _ => if evicted = job ∧ time ≠ 0 then some (time - 1) else none
  | _ => none

/-- When a call ends the job. -/
def Event.ends (job : Job) : Event Job → Option ℚ
  | finish done time => if done = job then some time else none
  | _ => none

variable {Heap : Type*} (trace : List (Transition (State Job Heap) (Event Job))) (job : Job)

/-- The time that was passed to `scheduler_new_job`. -/
def arrival : ℚ := ((firstSeen (Event.brings job) trace).map Prod.fst).getD 0

/-- The running time that was passed to `scheduler_new_job`. -/
def runningTime : ℚ := ((firstSeen (Event.brings job) trace).map (·.2.runningTime)).getD 0

/-- When `scheduler_quantum_expired` first returned the job. -/
def firstReturn : ℚ := (firstSeen (Event.returns job) trace).getD 0

/-- The start time that is stored: one less than when the job was first evicted. -/
def storedStart : ℚ := (firstSeen (Event.stores job) trace).getD (-1)

/-- When the job was finished. -/
def finishTime : ℚ := (firstSeen (Event.ends job) trace).getD 0

/-- What is counted of a job when it is finished: its turnaround, waiting and response times. -/
def counted : ℚ × ℚ × ℚ :=
  let turnaround := finishTime trace job - truncate (arrival trace job)
  (turnaround, turnaround - runningTime trace job,
    storedStart trace job - truncate (arrival trace job))

end Observations

/-- The totals of the turnaround, waiting and response times. -/
def Scheduler.totals {Job Heap : Type*} (sched : Scheduler Job Heap) : ℚ × ℚ × ℚ :=
  (sched.totalTurnaround, sched.totalWaiting, sched.totalResponse)

variable {Job Heap : Type*} [DecidableEq Job] {queue : PriorityQueue Job Heap}
  {Ordered : (Job → Job → Int) → Heap → Prop} {st after final : State Job Heap}
  {sched sched' : Scheduler Job Heap} {job other : Job} {time : ℚ} {info : JobInfo}
  {event : Event Job} {scheme : Scheme} {trace : List (Transition (State Job Heap) (Event Job))}

section Calls

/-- A call for a job counts nothing. -/
theorem expired_totals {evicted returned : Option Job}
    (done : schedulerQuantumExpired queue sched evicted time = some (returned, sched')) :
    sched'.totals = sched.totals ∧ sched'.count = sched.count := by
  -- Only the queue and the metadata change.
  cases evicted with
  | none =>
    cases done
    exact ⟨rfl, rfl⟩
  | some job =>
    simp only [schedulerQuantumExpired] at done
    split at done
    · cases done
    · split at done
      · cases done
        exact ⟨rfl, rfl⟩
      · cases done
        exact ⟨rfl, rfl⟩

/-- What `scheduler_job_finished` counts. -/
theorem finished_totals (done : schedulerJobFinished sched job time = some sched') :
    sched'.totals = sched.totals +
        (time - (sched.info job).arrival,
          time - (sched.info job).arrival - (sched.info job).runningTime,
          (sched.info job).startTime - (sched.info job).arrival) ∧
      sched'.count = sched.count := by
  rw [schedulerJobFinished] at done
  split at done
  · cases done
  next info known =>
    cases done
    simp [Scheduler.totals, Scheduler.info, known]

@[simp] theorem evict_arrival : (info.evict time).arrival = info.arrival := by
  rw [JobInfo.evict]
  split <;> rfl

/-- The start time of a job that is evicted. -/
theorem evict_startTime :
    (info.evict time).startTime = if info.startTime = -1 then time - 1 else info.startTime := by
  rw [JobInfo.evict]
  split <;> rfl

end Calls

/-- The first start time that is stored is not that of a new job. -/
theorem storedStart_eq_iff : storedStart trace job = -1 ↔
    firstSeen (Event.stores job) trace = none := by
  rw [storedStart]
  cases seen : firstSeen (Event.stores job) trace with
  | none => simp
  | some start =>
    obtain ⟨taken, _, stores⟩ := exists_of_firstSeen seen
    -- Only at time zero, it would be.
    cases action : taken.action with
    | newJob _ _ _ _ | dispatch _ _ | finish _ _ =>
      rw [action] at stores
      cases stores
    | expire evicted time returned =>
      rw [action, Event.stores] at stores
      split at stores
      next stops =>
        obtain rfl := Option.some.inj stores
        simp [sub_eq_iff_eq_add, stops.2]
      · cases stores

/-- What an eviction stores is what is seen then. -/
theorem storedStart_expire {returned : Option Job} :
    storedStart (trace ++ [⟨st, .expire job time returned, after⟩]) job =
      if storedStart trace job = -1 then time - 1 else storedStart trace job := by
  have first := @storedStart_eq_iff _ _ _ job trace
  rw [storedStart, firstSeen_append]
  split
  next unseen =>
    rw [first.mp unseen, Option.none_or, Event.stores]
    by_cases zero : time = 0
    · simp [zero]
    · simp [zero]
  next seen =>
    have some_ := Option.ne_none_iff_isSome.mp (first.not.mp seen)
    rw [Option.or_of_isSome some_, storedStart]

/-- What was seen of the jobs is what is stored for them, and what the totals have counted. -/
structure Recorded (queue : PriorityQueue Job Heap) (Ordered : (Job → Job → Int) → Heap → Prop)
    (trace : List (Transition (State Job Heap) (Event Job))) (st : State Job Heap) : Prop where
  proper : Proper queue Ordered st
  offered_nodup : st.offered.Nodup
  finished_nodup : st.finished.Nodup
  brought : ∀ job, (firstSeen (Event.brings job) trace).isSome ↔ job ∈ st.offered
  returned : ∀ job, st.running = some job ∨ job ∈ st.finished →
    (firstSeen (Event.returns job) trace).isSome
  stored : ∀ job, (firstSeen (Event.stores job) trace).isSome → job ∈ st.offered
  ended : ∀ job, (firstSeen (Event.ends job) trace).isSome ↔ job ∈ st.finished
  arrivals : ∀ job ∈ st.jobs queue, (st.scheduler.info job).arrival = truncate (arrival trace job)
  runningTimes : ∀ job ∈ st.jobs queue, (st.scheduler.info job).runningTime = runningTime trace job
  startTimes : ∀ job ∈ st.jobs queue, (st.scheduler.info job).startTime = storedStart trace job
  count : st.scheduler.count = st.offered.length
  totals : st.scheduler.totals = (st.finished.map (counted trace)).sum

namespace Recorded

/-- A job that has come keeps its arrival and its running time. -/
theorem arrival_append (recorded : Recorded queue Ordered trace st) (offered : job ∈ st.offered)
    (taken : Transition (State Job Heap) (Event Job)) :
    arrival (trace ++ [taken]) job = arrival trace job ∧
      runningTime (trace ++ [taken]) job = runningTime trace job := by
  -- It is brought once.
  have same := @firstSeen_of_isSome _ _ trace _ (Event.brings job) taken
    ((recorded.brought job).mpr offered)
  simp only [arrival, runningTime, same, and_self]

/-- A job that is finished keeps the time when it was. -/
theorem finishTime_append (recorded : Recorded queue Ordered trace st) (finished : job ∈ st.finished)
    (taken : Transition (State Job Heap) (Event Job)) :
    finishTime (trace ++ [taken]) job = finishTime trace job := by
  have same := @firstSeen_of_isSome _ _ trace _ (Event.ends job) taken
    ((recorded.ended job).mpr finished)
  simp only [finishTime, same]

/-- A job that is finished keeps everything that was seen of it. -/
theorem counted_append (recorded : Recorded queue Ordered trace st) (finished : job ∈ st.finished)
    (step : Step queue st event after) :
    counted (trace ++ [⟨st, event, after⟩]) job = counted trace job := by
  obtain ⟨arrival, runningTime⟩ :=
    recorded.arrival_append (recorded.proper.offered job finished) ⟨st, event, after⟩
  have ends := recorded.finishTime_append finished ⟨st, event, after⟩
  have quiet : event.stores job = none := by
    cases step with
    | newJob _ | dispatch _ _ | finish _ _ => rfl
    | @expire evicted time returned sched runs done =>
      -- What is evicted runs, and so is not finished.
      have waits := recorded.proper.mem_jobs_iff.mp (mem_together_iff.mpr (.inl runs))
      have apart : evicted ≠ job := fun same => waits.2 (same ▸ finished)
      simp [Event.stores, apart]
  have stores := @firstSeen_of_quiet _ _ trace _ (Event.stores job) ⟨st, event, after⟩ quiet
  simp only [counted, storedStart, arrival, runningTime, ends, stores]

/-- Which jobs have come. -/
theorem brought_step (recorded : Recorded queue Ordered trace st) (step : Step queue st event after)
    (job : Job) : (firstSeen (Event.brings job) (trace ++ [⟨st, event, after⟩])).isSome ↔
      job ∈ after.offered := by
  rw [firstSeen_append, Option.isSome_or, Bool.or_eq_true, recorded.brought]
  cases step with
  | @newJob new jobNumber time schedData fresh =>
    by_cases same : new = job
    · simp [Event.brings, same]
    · simp [Event.brings, same, Ne.symm same]
  | dispatch _ _ | expire _ _ | finish _ _ => simp [Event.brings]

/-- Which jobs are finished. -/
theorem ended_step (recorded : Recorded queue Ordered trace st) (step : Step queue st event after)
    (job : Job) : (firstSeen (Event.ends job) (trace ++ [⟨st, event, after⟩])).isSome ↔
      job ∈ after.finished := by
  rw [firstSeen_append, Option.isSome_or, Bool.or_eq_true, recorded.ended]
  cases step with
  | @finish done time sched runs _ =>
    by_cases same : done = job
    · simp [Event.ends, same]
    · simp [Event.ends, same, Ne.symm same]
  | newJob _ | dispatch _ _ | expire _ _ => simp [Event.ends]

/-- What runs or has ended was returned. -/
theorem returned_step (recorded : Recorded queue Ordered trace st)
    (step : Step queue st event after) (reached : after.running = some job ∨ job ∈ after.finished) :
    (firstSeen (Event.returns job) (trace ++ [⟨st, event, after⟩])).isSome := by
  rw [firstSeen_append, Option.isSome_or, Bool.or_eq_true]
  cases step with
  | newJob _ => exact .inl (recorded.returned job reached)
  | dispatch _ _ | expire _ _ =>
    rcases reached with runs | finished
    · right
      dsimp only at runs
      simp [Event.returns, Event.returned, runs]
    · exact .inl (recorded.returned job (.inr finished))
  | @finish done time sched runs _ =>
    rcases reached with none | finished
    · cases none
    · rcases List.mem_append.mp finished with old | new
      · exact .inl (recorded.returned job (.inr old))
      · rw [List.mem_singleton.mp new]
        exact .inl (recorded.returned done (.inl runs))

/-- A start time is stored for jobs that have come. -/
theorem stored_step (recorded : Recorded queue Ordered trace st) (step : Step queue st event after)
    (seen : (firstSeen (Event.stores job) (trace ++ [⟨st, event, after⟩])).isSome) :
    job ∈ after.offered := by
  rw [firstSeen_append, Option.isSome_or, Bool.or_eq_true] at seen
  cases step with
  | newJob _ =>
    have old := seen.resolve_right (by simp [Event.stores])
    exact List.mem_append_left _ (recorded.stored job old)
  | dispatch _ _ | finish _ _ =>
    exact recorded.stored job (seen.resolve_right (by simp [Event.stores]))
  | @expire evicted time returned sched runs _ =>
    rcases seen with old | new
    · exact recorded.stored job old
    · -- What is evicted runs.
      have mine : evicted = job := by
        by_contra apart
        simp [Event.stores, apart] at new
      exact (recorded.proper.mem_jobs_iff.mp (mem_together_iff.mpr (.inl (mine ▸ runs)))).1

/-- A job that has just come is seen for the first time. -/
theorem brings_newJob (recorded : Recorded queue Ordered trace st) (fresh : job ∉ st.offered)
    {jobNumber : Int} {schedData : SchedulerInfo} :
    firstSeen (Event.brings job) (trace ++ [⟨st, .newJob job jobNumber time schedData, after⟩]) =
      some (time, schedData) := by
  have none := Option.not_isSome_iff_eq_none.mp ((recorded.brought job).not.mpr fresh)
  rw [firstSeen_append, none]
  simp [Event.brings]

/-- The arrival and the running time of a job are stored. -/
theorem data_step (lawful : queue.Lawful Ordered) (recorded : Recorded queue Ordered trace st)
    (step : Step queue st event after) (member : job ∈ after.jobs queue) :
    (after.scheduler.info job).arrival = truncate (arrival (trace ++ [⟨st, event, after⟩]) job) ∧
      (after.scheduler.info job).runningTime =
        runningTime (trace ++ [⟨st, event, after⟩]) job := by
  -- They are stored when the job comes, and are not changed by an eviction.
  have old : job ∈ st.jobs queue → (st.scheduler.info job).arrival =
        truncate (arrival (trace ++ [⟨st, event, after⟩]) job) ∧
      (st.scheduler.info job).runningTime =
        runningTime (trace ++ [⟨st, event, after⟩]) job := by
    intro waits
    obtain ⟨arrives, runs⟩ := recorded.arrival_append
      (recorded.proper.mem_jobs_iff.mp waits).1 ⟨st, event, after⟩
    rw [arrives, runs]
    exact ⟨recorded.arrivals job waits, recorded.runningTimes job waits⟩
  cases recorded.proper.fate lawful step member with
  | stays waits same _ =>
    rw [info_congr same]
    exact old waits
  | comes came fresh info _ =>
    subst came
    rw [info, arrival, runningTime, recorded.brings_newJob fresh]
    exact ⟨rfl, rfl⟩
  | stops _ runs info _ =>
    rw [info, evict_arrival, evict_runningTime]
    exact old (mem_together_iff.mpr (.inl runs))

/-- The start time of a job is stored. -/
theorem startTime_step (lawful : queue.Lawful Ordered) (recorded : Recorded queue Ordered trace st)
    (step : Step queue st event after) (member : job ∈ after.jobs queue) :
    (after.scheduler.info job).startTime = storedStart (trace ++ [⟨st, event, after⟩]) job := by
  -- Only where the quantum of the job expires, its start time may be stored.
  by_cases evicts : ∃ time returned, event = .expire job time returned
  · obtain ⟨time, returned, rfl⟩ := evicts
    have runs : st.running = some job := by
      cases step with
      | expire runs _ => exact runs
    have served := recorded.proper.served_of_step lawful step trivial
    rw [served.info_evicted runs, evict_startTime, storedStart_expire,
      recorded.startTimes job (mem_together_iff.mpr (.inl runs))]
    rfl
  · have quiet : event.stores job = none := by
      cases event with
      | newJob _ _ _ _ | dispatch _ _ | finish _ _ => rfl
      | expire evicted time returned =>
        have apart : evicted ≠ job := fun same => evicts ⟨time, returned, same ▸ rfl⟩
        simp [Event.stores, apart]
    rw [storedStart, @firstSeen_of_quiet _ _ trace _ (Event.stores job) ⟨st, event, after⟩ quiet,
      ← storedStart]
    cases recorded.proper.fate lawful step member with
    | stays waits same _ => exact info_congr same ▸ recorded.startTimes job waits
    | comes came fresh info _ =>
      have none := Option.not_isSome_iff_eq_none.mp fun seen => fresh (recorded.stored job seen)
      rw [info, storedStart_eq_iff.mpr none]
      rfl
    | stops stopped _ _ _ => exact absurd ⟨_, _, stopped⟩ evicts

/-- What was counted of the finished jobs stays the same. -/
theorem sum_append (recorded : Recorded queue Ordered trace st) (step : Step queue st event after) :
    (st.finished.map (counted (trace ++ [⟨st, event, after⟩]))).sum =
      (st.finished.map (counted trace)).sum :=
  congrArg List.sum (List.map_congr_left fun _ finished => recorded.counted_append finished step)

/-- The totals count the jobs that are finished. -/
theorem totals_step (recorded : Recorded queue Ordered trace st)
    (step : Step queue st event after) : after.scheduler.totals =
      (after.finished.map (counted (trace ++ [⟨st, event, after⟩]))).sum := by
  have kept := recorded.sum_append step
  cases step with
  | newJob _ =>
    rw [kept, ← recorded.totals]
    rfl
  | dispatch _ done | expire _ done =>
    rw [kept, ← recorded.totals]
    exact (expired_totals done).1
  | @finish job time sched runs done =>
    have waits : job ∈ st.jobs queue := mem_together_iff.mpr (.inl runs)
    obtain ⟨offered, unfinished⟩ := recorded.proper.mem_jobs_iff.mp waits
    -- What is stored for the job is what was seen of it, and its end is seen now.
    have none := Option.not_isSome_iff_eq_none.mp ((recorded.ended job).not.mpr unfinished)
    obtain ⟨arrives, asks⟩ := recorded.arrival_append offered ⟨st, .finish job time, _⟩
    rw [List.map_append, List.sum_append, kept, ← recorded.totals, (finished_totals done).1,
      recorded.arrivals job waits, recorded.runningTimes job waits, recorded.startTimes job waits,
      List.map_singleton, List.sum_singleton, counted, arrives, asks, finishTime, firstSeen_append,
      none, storedStart, storedStart, firstSeen_append]
    simp [Event.ends, Event.stores]

/-- Every job that comes is counted. -/
theorem count_step (recorded : Recorded queue Ordered trace st) (step : Step queue st event after) :
    after.scheduler.count = after.offered.length := by
  have before := recorded.count
  cases step with
  | newJob _ =>
    rw [List.length_append, ← before]
    rfl
  | dispatch _ done | expire _ done => exact (expired_totals done).2.trans before
  | finish _ done => exact (finished_totals done).2.trans before

/-- No job comes twice, or is finished twice. -/
theorem nodup_step (recorded : Recorded queue Ordered trace st) (step : Step queue st event after) :
    after.offered.Nodup ∧ after.finished.Nodup := by
  have offered := recorded.offered_nodup
  have finished := recorded.finished_nodup
  cases step with
  | newJob fresh => exact ⟨List.concat_eq_append ▸ offered.concat fresh, finished⟩
  | dispatch _ _ | expire _ _ => exact ⟨offered, finished⟩
  | finish runs _ =>
    have waits := recorded.proper.mem_jobs_iff.mp (mem_together_iff.mpr (.inl runs))
    exact ⟨offered, List.concat_eq_append ▸ finished.concat waits.2⟩

/-- Every step keeps the record. -/
theorem step (lawful : queue.Lawful Ordered) (recorded : Recorded queue Ordered trace st)
    (step : Step queue st event after) :
    Recorded queue Ordered (trace ++ [⟨st, event, after⟩]) after where
  proper := recorded.proper.step lawful step
  offered_nodup := (recorded.nodup_step step).1
  finished_nodup := (recorded.nodup_step step).2
  brought := recorded.brought_step step
  returned _ := recorded.returned_step step
  stored _ := recorded.stored_step step
  ended := recorded.ended_step step
  arrivals _ member := (recorded.data_step lawful step member).1
  runningTimes _ member := (recorded.data_step lawful step member).2
  startTimes _ := recorded.startTime_step lawful step
  count := recorded.count_step step
  totals := recorded.totals_step step

end Recorded

/-- In every run, the record is right. -/
theorem recorded_of_run (lawful : queue.Lawful Ordered)
    (run : Run (Step queue) (start queue scheme) trace final) :
    Recorded queue Ordered trace final := by
  have none (job : Job) : job ∉ (start queue scheme : State Job Heap).jobs queue := by
    rw [(proper_of_run lawful .start).mem_jobs_iff]
    exact fun member => absurd member.1 List.not_mem_nil
  refine run.history ?_ fun _ _ _ _ recorded step => recorded.step lawful step
  -- At the start, nothing was seen and nothing is stored.
  exact {
    proper := proper_of_run lawful .start
    offered_nodup := List.nodup_nil
    finished_nodup := List.nodup_nil
    brought := fun job => by simp [firstSeen, start]
    returned := fun job reached => by simp [start] at reached
    stored := fun job seen => by simp [firstSeen] at seen
    ended := fun job => by simp [firstSeen, start]
    arrivals := fun job member => absurd member (none job)
    runningTimes := fun job member => absurd member (none job)
    startTimes := fun job member => absurd member (none job)
    count := rfl
    totals := rfl }

end SystemProgramming.Scheduling
