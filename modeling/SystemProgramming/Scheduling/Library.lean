import Mathlib.Data.Rat.Init
import Mathlib.Algebra.Order.Ring.Rat
import SystemProgramming.Foundations.PriorityQueue
import SystemProgramming.Foundations.Runs

/-! The job scheduler over a priority queue, and the caller that runs one job at a time. -/

namespace SystemProgramming.Scheduling

open Foundations

/-- A `scheme_t`. -/
inductive Scheme where
  | FCFS
  | SJF
  | PRI
  | PPRI
  | PSRTF
  | RR
  deriving DecidableEq, Repr

/-- A `job_info`; its times are exact numbers. -/
structure JobInfo where
  id : Int
  arrival : Int
  priority : Int
  startTime : ℚ
  runningTime : ℚ
  remainingTime : ℚ
  rrTime : ℚ
  deriving DecidableEq, Inhabited

/-- The fields of a `scheduler_info` that are read. -/
structure SchedulerInfo where
  priority : Int
  runningTime : ℚ

/-- `comparer_fcfs`. -/
def comparerFcfs : JobInfo → JobInfo → Int := compareBy JobInfo.arrival fun _ _ => 0

/-- `break_tie`. -/
def breakTie : JobInfo → JobInfo → Int := comparerFcfs

/-- `comparer_pri`. -/
def comparerPri : JobInfo → JobInfo → Int := compareBy JobInfo.priority breakTie

/-- `comparer_ppri`. -/
def comparerPpri : JobInfo → JobInfo → Int := comparerPri

/-- `comparer_psrtf`. -/
def comparerPsrtf : JobInfo → JobInfo → Int := compareBy JobInfo.remainingTime breakTie

/-- `comparer_rr`. -/
def comparerRr : JobInfo → JobInfo → Int := compareBy JobInfo.rrTime breakTie

/-- `comparer_sjf`. -/
def comparerSjf : JobInfo → JobInfo → Int := compareBy JobInfo.runningTime breakTie

/-- The `comparision_func` that `scheduler_start_up` chooses. -/
def Scheme.comparer : Scheme → JobInfo → JobInfo → Int
  | FCFS => comparerFcfs
  | PRI => comparerPri
  | PPRI => comparerPpri
  | PSRTF => comparerPsrtf
  | RR => comparerRr
  | SJF => comparerSjf

/-- All schemes compare consistently. -/
theorem Scheme.consistent (scheme : Scheme) : Consistent scheme.comparer := by
  -- Each comparer looks at one key and then at the arrival.
  have tie : Consistent breakTie := Consistent.zero.compareBy
  cases scheme with
  | FCFS => exact tie
  | SJF | PRI | PPRI | PSRTF | RR => exact tie.compareBy

/-- A `double` becomes an `int`: its fraction is cut off. -/
def truncate (time : ℚ) : Int := time.num.tdiv time.den

/-- The globals of the scheduler, and the `metadata` of the jobs where it is allocated. -/
structure Scheduler (Job Heap : Type*) where
  scheme : Scheme
  pqueue : Heap
  metadata : Job → Option JobInfo
  count : Nat
  totalWaiting : ℚ
  totalTurnaround : ℚ
  totalResponse : ℚ

section Functions

variable {Job Heap : Type*} [DecidableEq Job] (queue : PriorityQueue Job Heap)

/-- What the `metadata` of a job points to; no freed one is compared in any run. -/
def Scheduler.info (sched : Scheduler Job Heap) (job : Job) : JobInfo :=
  (sched.metadata job).getD default

/-- The comparison of two jobs by their metadata. -/
def Scheduler.compare (sched : Scheduler Job Heap) (a b : Job) : Int :=
  sched.scheme.comparer (sched.info a) (sched.info b)

/-- `priqueue_offer`. -/
def Scheduler.offer (sched : Scheduler Job Heap) (job : Job) : Scheduler Job Heap :=
  { sched with pqueue := queue.offer sched.compare job sched.pqueue }

/-- `priqueue_poll`. -/
def Scheduler.poll (sched : Scheduler Job Heap) : Option Job × Scheduler Job Heap :=
  let polled := queue.poll sched.compare sched.pqueue
  (polled.1, { sched with pqueue := polled.2 })

/-- `scheduler_start_up`. -/
def schedulerStartUp (scheme : Scheme) : Scheduler Job Heap where
  scheme := scheme
  pqueue := queue.empty
  metadata _ := none
  count := 0
  totalWaiting := 0
  totalTurnaround := 0
  totalResponse := 0

/-- The metadata that `scheduler_new_job` gives a job. -/
def newInfo (jobNumber : Int) (time : ℚ) (schedData : SchedulerInfo) : JobInfo where
  id := jobNumber
  arrival := truncate time
  priority := schedData.priority
  runningTime := schedData.runningTime
  remainingTime := schedData.runningTime
  rrTime := -1
  startTime := -1

/-- `scheduler_new_job`. -/
def schedulerNewJob (sched : Scheduler Job Heap) (newjob : Job) (jobNumber : Int) (time : ℚ)
    (schedData : SchedulerInfo) : Scheduler Job Heap :=
  let metadata := Function.update sched.metadata newjob (some (newInfo jobNumber time schedData))
  let sched := Scheduler.offer queue { sched with metadata := metadata } newjob
  { sched with count := sched.count + 1 }

/-- The metadata of a job that is evicted. -/
def JobInfo.evict (info : JobInfo) (time : ℚ) : JobInfo :=
  let info :=
    { info with
      remainingTime := info.remainingTime - (time - info.startTime)
      rrTime := time }
  if info.startTime = -1 then { info with startTime := time - 1 } else info

/-- The schemes under which `scheduler_quantum_expired` replaces the job. -/
def Scheme.Preemptive (scheme : Scheme) : Prop := scheme = PPRI ∨ scheme = PSRTF ∨ scheme = RR

instance Scheme.decidablePreemptive (scheme : Scheme) : Decidable scheme.Preemptive :=
  inferInstanceAs (Decidable (_ ∨ _))

/-- `scheduler_quantum_expired`; it is undefined for a job whose metadata is freed. -/
def schedulerQuantumExpired (sched : Scheduler Job Heap) (jobEvicted : Option Job) (time : ℚ) :
    Option (Option Job × Scheduler Job Heap) :=
  match jobEvicted with
  | none => some (sched.poll queue)
  | some job =>
    match sched.metadata job with
    | none => none
    | some info =>
      let metadata := Function.update sched.metadata job (some (info.evict time))
      let sched := { sched with metadata := metadata }
      -- The two branches for these schemes do the same.
      if sched.scheme.Preemptive then some ((sched.offer queue job).poll queue)
      else some (some job, sched)

/-- `scheduler_job_finished`; it is undefined for a job whose metadata is freed. -/
def schedulerJobFinished (sched : Scheduler Job Heap) (jobDone : Job) (time : ℚ) :
    Option (Scheduler Job Heap) :=
  match sched.metadata jobDone with
  | none => none
  | some info =>
    some
      { sched with
        metadata := Function.update sched.metadata jobDone none
        totalTurnaround := sched.totalTurnaround + (time - info.arrival)
        totalWaiting := sched.totalWaiting + (time - info.arrival - info.runningTime)
        totalResponse := sched.totalResponse + (info.startTime - info.arrival) }

end Functions

/-- A call of the scheduler, with what it returns. -/
inductive Event (Job : Type*) where
  | newJob (job : Job) (jobNumber : Int) (time : ℚ) (schedData : SchedulerInfo)
  | dispatch (time : ℚ) (returned : Option Job)
  | expire (job : Job) (time : ℚ) (returned : Option Job)
  | finish (job : Job) (time : ℚ)

/-- When a call is made. -/
def Event.time {Job : Type*} : Event Job → ℚ
  | newJob _ _ time _ | dispatch time _ | expire _ time _ | finish _ time => time

/-- The call is one of `scheduler_quantum_expired`. -/
def Event.Asks {Job : Type*} : Event Job → Prop
  | dispatch _ _ | expire _ _ _ => True
  | newJob _ _ _ _ | finish _ _ => False

/-- The job that a call returns. -/
def Event.returned {Job : Type*} : Event Job → Option Job
  | dispatch _ returned | expire _ _ returned => returned
  | newJob _ _ _ _ | finish _ _ => none

/-- A call that asks for no job returns none. -/
theorem returned_of_not_asks {Job : Type*} {event : Event Job} (quiet : ¬ event.Asks) :
    event.returned = none := by
  cases event with
  | newJob _ _ _ _ | finish _ _ => rfl
  | dispatch _ _ | expire _ _ _ => exact absurd trivial quiet

/--
The scheduler and its caller: the job that runs and since when, the jobs offered and finished so
far, and the time that each job has run, up to where it stopped last.
-/
structure State (Job Heap : Type*) where
  scheduler : Scheduler Job Heap
  running : Option Job
  since : ℚ
  offered : List Job
  finished : List Job
  received : Job → ℚ

section Steps

variable {Job Heap : Type*} [DecidableEq Job] (queue : PriorityQueue Job Heap)

/-- Before the first call, nothing runs. -/
def start (scheme : Scheme) : State Job Heap where
  scheduler := schedulerStartUp queue scheme
  running := none
  since := 0
  offered := []
  finished := []
  received _ := 0

/-- A job stops at the given time. -/
def State.stop (st : State Job Heap) (job : Job) (time : ℚ) : Job → ℚ :=
  Function.update st.received job (st.received job + (time - st.since))

/--
The calls. New jobs come at any time, each of them once; the job that was returned runs until its
quantum expires or it is finished, and then, or where none was returned, the caller asks for
another one.
-/
inductive Step : State Job Heap → Event Job → State Job Heap → Prop
  | newJob {st : State Job Heap} {job : Job} {jobNumber : Int} {time : ℚ}
      {schedData : SchedulerInfo} :
      job ∉ st.offered →
      Step st (.newJob job jobNumber time schedData)
        { st with
          scheduler := schedulerNewJob queue st.scheduler job jobNumber time schedData
          offered := st.offered ++ [job] }
  | dispatch {st : State Job Heap} {time : ℚ} {returned : Option Job}
      {sched : Scheduler Job Heap} :
      st.running = none →
      schedulerQuantumExpired queue st.scheduler none time = some (returned, sched) →
      Step st (.dispatch time returned)
        { st with scheduler := sched, running := returned, since := time }
  | expire {st : State Job Heap} {job : Job} {time : ℚ} {returned : Option Job}
      {sched : Scheduler Job Heap} :
      st.running = some job →
      schedulerQuantumExpired queue st.scheduler (some job) time = some (returned, sched) →
      Step st (.expire job time returned)
        { st with
          scheduler := sched, running := returned, since := time, received := st.stop job time }
  | finish {st : State Job Heap} {job : Job} {time : ℚ} {sched : Scheduler Job Heap} :
      st.running = some job →
      schedulerJobFinished st.scheduler job time = some sched →
      Step st (.finish job time)
        { st with
          scheduler := sched, running := none, finished := st.finished ++ [job]
          received := st.stop job time }

end Steps

end SystemProgramming.Scheduling
