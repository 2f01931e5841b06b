import Mathlib.Tactic.Linarith
import Mathlib.Tactic.NormNum
import Mathlib.Tactic.Ring
import SystemProgramming.Scheduling.Dispatch

/-!
The remaining time of a job is right exactly as long as every quantum began at the `start_time` that
is stored, which is set once and is -1 before.
-/

namespace SystemProgramming.Scheduling

open Foundations

variable {Job Heap : Type*} [DecidableEq Job] {queue : PriorityQueue Job Heap}
  {Ordered : (Job → Job → Int) → Heap → Prop} {st after final : State Job Heap}
  {job other : Job} {time : ℚ} {info : JobInfo} {event : Event Job} {scheme : Scheme}
  {trace : List (Transition (State Job Heap) (Event Job))}

/-- The time that a job still has to run, as it stopped last. -/
def State.owed (st : State Job Heap) (job : Job) : ℚ :=
  (st.scheduler.info job).runningTime - st.received job

/-- After a quantum, the stored remaining time of the job is what it still has to run. -/
def RemainingRight (taken : Transition (State Job Heap) (Event Job)) : Prop :=
  ∀ job time returned, taken.action = .expire job time returned →
    (taken.after.scheduler.info job).remainingTime = taken.after.owed job

/-- When a quantum ends, the stored start time of the job is when the quantum began. -/
def StartRight (taken : Transition (State Job Heap) (Event Job)) : Prop :=
  ∀ job time returned, taken.action = .expire job time returned →
    (taken.before.scheduler.info job).startTime = taken.before.since

@[simp] theorem evict_runningTime : (info.evict time).runningTime = info.runningTime := by
  rw [JobInfo.evict]
  split <;> rfl

@[simp] theorem evict_remainingTime :
    (info.evict time).remainingTime = info.remainingTime - (time - info.startTime) := by
  rw [JobInfo.evict]
  split <;> rfl

/-- The stored remaining times are right, and a job that has not come has not run. -/
structure Accounted (queue : PriorityQueue Job Heap) (Ordered : (Job → Job → Int) → Heap → Prop)
    (st : State Job Heap) : Prop where
  proper : Proper queue Ordered st
  right : ∀ job ∈ st.jobs queue, (st.scheduler.info job).remainingTime = st.owed job
  unseen : ∀ job, job ∉ st.offered → st.received job = 0

/-- The quantum of an accounted job leaves it right exactly if it began at the stored start time. -/
theorem Accounted.evict_iff (accounted : Accounted queue Ordered st)
    (runs : st.running = some job)
    (info : after.scheduler.info job = (st.scheduler.info job).evict time)
    (received : after.received job = st.received job + (time - st.since)) :
    (after.scheduler.info job).remainingTime = after.owed job ↔
      (st.scheduler.info job).startTime = st.since := by
  have right := accounted.right job (mem_together_iff.mpr (.inl runs))
  rw [State.owed] at right
  rw [State.owed, info, evict_remainingTime, evict_runningTime, right, received]
  constructor
  · intro same
    linarith
  · intro same
    rw [same]
    ring

/-- A job that has not come is given no time. -/
theorem Proper.unseen_step (proper : Proper queue Ordered st) (step : Step queue st event after)
    (unseen : ∀ job, job ∉ st.offered → st.received job = 0) :
    ∀ job, job ∉ after.offered → after.received job = 0 := by
  intro job absent
  cases step with
  | newJob _ => exact unseen job fun member => absent (List.mem_append_left _ member)
  | dispatch _ _ => exact unseen job absent
  | expire runs _ | finish runs _ =>
    -- Only a job that runs, and so was offered, is given time.
    have offered := (proper.mem_jobs_iff.mp (mem_together_iff.mpr (.inl runs))).1
    refine (Function.update_of_ne ?_ _ _).trans (unseen job absent)
    intro same
    exact absent (same ▸ offered)

/-- Where the quantum that ends began at the stored start time, the times stay right. -/
theorem Accounted.step (lawful : queue.Lawful Ordered) (accounted : Accounted queue Ordered st)
    (step : Step queue st event after) (begun : StartRight ⟨st, event, after⟩) :
    Accounted queue Ordered after := by
  have proper := accounted.proper
  refine ⟨proper.step lawful step, ?_, ?_⟩
  · intro job member
    cases proper.fate lawful step member with
    | stays before same ran =>
      rw [State.owed, info_congr same, ran]
      exact accounted.right job before
    | comes _ fresh info ran =>
      -- A new job has not run.
      rw [State.owed, info, ran, accounted.unseen job fresh]
      exact (sub_zero _).symm
    | stops now runs info ran =>
      exact (accounted.evict_iff runs info ran).mpr (begun job _ _ now)
  · exact proper.unseen_step step accounted.unseen

/-- A quantum leaves the remaining time right exactly if it began at the stored start time. -/
theorem Accounted.right_iff (lawful : queue.Lawful Ordered)
    (accounted : Accounted queue Ordered st) (step : Step queue st event after) :
    RemainingRight ⟨st, event, after⟩ ↔ StartRight ⟨st, event, after⟩ := by
  cases step with
  | @expire evicted time returned sched runs done =>
    have served := accounted.proper.served_of_step lawful (.expire runs done) trivial
    have ran : st.stop evicted time evicted = st.received evicted + (time - st.since) :=
      Function.update_self _ _ _
    constructor
    · intro right job time returned same
      cases same
      exact (accounted.evict_iff runs (served.info_evicted runs) ran).mp (right _ _ _ rfl)
    · intro begun job time returned same
      cases same
      exact (accounted.evict_iff runs (served.info_evicted runs) ran).mpr (begun _ _ _ rfl)
  | newJob _ | dispatch _ _ | finish _ _ =>
    -- No quantum ends.
    constructor
    all_goals
      intro _ job time returned same
      cases same

/-- At the start, there is nothing to account for. -/
theorem accounted_start (lawful : queue.Lawful Ordered) (scheme : Scheme) :
    Accounted queue Ordered (start queue scheme : State Job Heap) where
  proper := proper_of_run lawful .start
  right job member := by
    rw [(proper_of_run lawful .start).mem_jobs_iff] at member
    cases member.1
  unseen _ _ := rfl

/-- A run whose quanta all began at the stored start times leaves everything right. -/
theorem accounted_of_run (lawful : queue.Lawful Ordered)
    (run : Run (Step queue) (start queue scheme) trace final)
    (begun : ∀ taken ∈ trace, StartRight taken) : Accounted queue Ordered final := by
  induction run with
  | start => exact accounted_start lawful scheme
  | @next trace before after event _ step ih =>
    have past := ih fun taken member => begun taken (List.mem_append_left _ member)
    exact past.step lawful step (begun ⟨before, event, after⟩ (by simp))

/-- The job that is returned has the least remaining time that is stored, or comes first. -/
theorem least_of_comparerPsrtf {a b : JobInfo} (first : comparerPsrtf a b ≤ 0) :
    a.remainingTime < b.remainingTime ∨
      (a.remainingTime = b.remainingTime ∧ a.arrival ≤ b.arrival) := by
  rw [comparerPsrtf, compareBy_nonpos_iff, breakTie, comparerFcfs, compareBy_nonpos_iff] at first
  exact first.imp_right fun tie => ⟨tie.1, tie.2.elim le_of_lt fun same => same.1.le⟩

/-- Under `PSRTF`, as long as the times are right, a job with the least time to run is returned. -/
theorem Accounted.least (lawful : queue.Lawful Ordered) (accounted : Accounted queue Ordered st)
    (scheme : st.scheduler.scheme = .PSRTF) (step : Step queue st event after)
    (begun : StartRight ⟨st, event, after⟩) (returned : event.returned = some job)
    (waits : other ∈ st.jobs queue) :
    after.owed job < after.owed other ∨ (after.owed job = after.owed other ∧
      (after.scheduler.info job).arrival ≤ (after.scheduler.info other).arrival) := by
  have asks : event.Asks := by
    by_contra quiet
    rw [returned_of_not_asks quiet] at returned
    cases returned
  have served := accounted.proper.served_of_step lawful step asks
  have kept := accounted.step lawful step begun
  have same : after.jobs queue = st.jobs queue := by
    rw [← served.jobs]
    cases step with
    | dispatch _ _ | expire _ _ => rfl
    | newJob _ | finish _ _ => exact asks.elim
  have mine : job ∈ st.jobs queue := by
    rw [← served.jobs, returned]
    exact Multiset.mem_cons_self _ _
  -- The stored times, by which the job comes first, are right.
  have preemptive : st.scheduler.scheme.Preemptive := by rw [scheme]; decide
  have first := served.least (.inr preemptive) job returned other waits
  rw [Scheduler.compare, served.scheme, scheme] at first
  have stored := least_of_comparerPsrtf first
  rwa [kept.right job (same ▸ mine), kept.right other (same ▸ waits)] at stored

/-- No quantum ends. -/
def Unbroken (taken : Transition (State Job Heap) (Event Job)) : Prop :=
  ∀ job time returned, taken.action ≠ .expire job time returned

/-- No start time has been stored yet, and what runs was returned at a time that is not negative. -/
structure Untouched (queue : PriorityQueue Job Heap) (Ordered : (Job → Job → Int) → Heap → Prop)
    (st : State Job Heap) : Prop where
  proper : Proper queue Ordered st
  since : 0 ≤ st.since
  none : ∀ job ∈ st.jobs queue, (st.scheduler.info job).startTime = -1

/-- As long as no quantum ends, no start time is stored. -/
theorem Untouched.step (lawful : queue.Lawful Ordered) (untouched : Untouched queue Ordered st)
    (step : Step queue st event after) (unbroken : Unbroken ⟨st, event, after⟩)
    (nonneg : 0 ≤ event.time) : Untouched queue Ordered after := by
  have proper := untouched.proper
  refine ⟨proper.step lawful step, ?_, ?_⟩
  · cases step with
    | newJob _ | finish _ _ => exact untouched.since
    | dispatch _ _ | expire _ _ => exact nonneg
  · intro job member
    cases proper.fate lawful step member with
    | stays before same _ =>
      rw [info_congr same]
      exact untouched.none job before
    | comes _ _ info _ => rw [info, newInfo]
    | stops now _ _ _ => exact absurd now (unbroken job _ _)

/-- The first quantum that ends did not begin at -1. -/
theorem Untouched.startRight_iff (untouched : Untouched queue Ordered st)
    (step : Step queue st event after) :
    StartRight ⟨st, event, after⟩ ↔ Unbroken ⟨st, event, after⟩ := by
  constructor
  · intro begun job time returned same
    have since := begun job time returned same
    have runs : st.running = some job := by
      cases same
      cases step with
      | expire runs _ => exact runs
    have none := untouched.none job (mem_together_iff.mpr (.inl runs))
    have nonneg := untouched.since
    rw [none] at since
    exact absurd (since ▸ nonneg) neg_one_lt_zero.not_ge
  · intro unbroken job time returned same
    exact absurd same (unbroken job time returned)

/-- With times that are not negative, all quanta began at the stored start times if none ended. -/
theorem startRight_iff_unbroken (lawful : queue.Lawful Ordered)
    (run : Run (Step queue) (start queue scheme) trace final)
    (nonneg : ∀ taken ∈ trace, 0 ≤ taken.action.time) :
    (∀ taken ∈ trace, StartRight taken) ↔ ∀ taken ∈ trace, Unbroken taken := by
  have initial : Untouched queue Ordered (start queue scheme : State Job Heap) := by
    refine ⟨proper_of_run lawful .start, le_rfl, ?_⟩
    intro job member
    rw [(proper_of_run lawful .start).mem_jobs_iff] at member
    cases member.1
  have both := run.all_good_iff_of_kept (Untouched queue Ordered)
    (fun taken => StartRight taken ∧ 0 ≤ taken.action.time)
    (fun taken => Unbroken taken ∧ 0 ≤ taken.action.time) initial
    (fun _ _ _ untouched step meets => untouched.step lawful step meets.1 meets.2)
    fun _ _ _ untouched step => and_congr_left fun _ => untouched.startRight_iff step
  constructor
  · intro begun taken member
    exact (both.mp (fun taken member => ⟨begun taken member, nonneg taken member⟩) taken member).1
  · intro unbroken taken member
    exact (both.mpr (fun taken member => ⟨unbroken taken member, nonneg taken member⟩) taken member).1

/--
After each quantum of a run the stored remaining time of the job is its running time minus the time
it has run, exactly if each quantum began at the `start_time` that is stored for its job; with times
that are not negative, this means that no quantum ends. Where it is so, a job that is returned under
`PSRTF` has the least time to run of all unfinished jobs, and the least arrival of those.
-/
theorem remaining_right_iff (lawful : queue.Lawful Ordered) (scheme : Scheme)
    (run : Run (Step queue) (start queue scheme) trace final) :
    ((∀ taken ∈ trace, RemainingRight taken) ↔ ∀ taken ∈ trace, StartRight taken) ∧
    ((∀ taken ∈ trace, 0 ≤ taken.action.time) →
      ((∀ taken ∈ trace, StartRight taken) ↔ ∀ taken ∈ trace, Unbroken taken)) ∧
    ((∀ taken ∈ trace, StartRight taken) → scheme = .PSRTF →
      ∀ taken ∈ trace, ∀ job, taken.action.returned = some job →
        ∀ other ∈ taken.before.jobs queue,
          taken.after.owed job < taken.after.owed other ∨
            (taken.after.owed job = taken.after.owed other ∧
              (taken.after.scheduler.info job).arrival ≤
                (taken.after.scheduler.info other).arrival)) := by
  refine ⟨?_, startRight_iff_unbroken lawful run, ?_⟩
  · exact run.all_good_iff_of_kept (Accounted queue Ordered) RemainingRight StartRight
      (accounted_start lawful scheme)
      (fun _ _ _ accounted step begun => accounted.step lawful step begun)
      fun _ _ _ accounted step => accounted.right_iff lawful step
  · intro begun shortest taken member job returned other waits
    obtain ⟨earlier, later, rfl⟩ := List.append_of_mem member
    obtain ⟨before, step⟩ := run.cut
    -- The quanta before this call all began at the stored start times.
    have accounted := accounted_of_run lawful before fun past member =>
      begun past (List.mem_append_left _ member)
    have chosen := (scheme_of_run lawful before).trans shortest
    exact accounted.least lawful chosen step (begun taken member) returned waits

/-- A quantum that began at -1, where the stored start time is right, is taken off in full. -/
theorem remaining_right_at_minus_one : ∃ final : State Nat (List Nat),
    (final.scheduler.info 1).remainingTime = final.owed 1 ∧ final.received 1 = 2 := by
  let origin : State Nat (List Nat) := start PriorityQueue.sortedList .PSRTF
  let first := offeredTo origin 1 (-2) ⟨1, 10⟩
  let alone := dispatchedTo first (-1) 1
  let stopped := expiredTo alone 1 1
  have offer : Step PriorityQueue.sortedList origin (.newJob 1 1 (-2) ⟨1, 10⟩) first :=
    .newJob (by decide)
  have dispatch : Step PriorityQueue.sortedList first (.dispatch (-1) (some 1)) alone :=
    .dispatch rfl rfl
  have expire : Step PriorityQueue.sortedList alone (.expire 1 1 (some 1)) stopped :=
    .expire rfl rfl
  have run := ((Run.start.next offer).next dispatch).next expire
  have right := (remaining_right_iff PriorityQueue.lawful_sortedList .PSRTF run).1.mpr ?_
  · exact ⟨stopped, right ⟨alone, .expire 1 1 (some 1), stopped⟩ (by simp) 1 1 _ rfl,
      by decide +kernel⟩
  · intro taken member job time returned ends
    simp only [List.nil_append, List.cons_append, List.mem_cons, List.not_mem_nil, or_false]
      at member
    rcases member with rfl | rfl | rfl
    · cases ends
    · cases ends
    · cases ends
      rfl

/--
A job of 10 runs from 0 to 1 under `PSRTF`: 2 and not 1 are taken off its remaining time, and it is
returned again although another job has less to run.
-/
theorem remaining_wrong : ∃ (trace : List (Transition (State Nat (List Nat)) (Event Nat)))
    (final : State Nat (List Nat)),
    Run (Step PriorityQueue.sortedList) (start PriorityQueue.sortedList .PSRTF) trace final ∧
    (¬ ∀ taken ∈ trace, RemainingRight taken) ∧ final.running = some 1 ∧
    (final.scheduler.info 1).remainingTime = 8 ∧ final.owed 1 = 9 ∧
    2 ∈ final.jobs PriorityQueue.sortedList ∧ final.owed 2 = 17 / 2 := by
  let origin : State Nat (List Nat) := start PriorityQueue.sortedList .PSRTF
  let first := offeredTo origin 1 0 ⟨1, 10⟩
  let alone := dispatchedTo first 0 1
  let both := offeredTo alone 2 (1 / 2) ⟨1, 17 / 2⟩
  let stopped := expiredTo both 1 1
  have offer : Step PriorityQueue.sortedList origin (.newJob 1 1 0 ⟨1, 10⟩) first :=
    .newJob (by decide)
  have dispatch : Step PriorityQueue.sortedList first (.dispatch 0 (some 1)) alone :=
    .dispatch rfl rfl
  have shorter : Step PriorityQueue.sortedList alone (.newJob 2 2 (1 / 2) ⟨1, 17 / 2⟩) both :=
    .newJob (by decide)
  have again : stopped.running = some 1 := by decide +kernel
  have expire : Step PriorityQueue.sortedList both (.expire 1 1 (some 1)) stopped :=
    again ▸ step_expiredTo rfl rfl
  have stored : (stopped.scheduler.info 1).remainingTime = 8 := by decide +kernel
  have owed : stopped.owed 1 = 9 := by decide +kernel
  refine ⟨_, stopped, (((Run.start.next offer).next dispatch).next shorter).next expire, ?_, again,
    stored, owed, ?_, by decide +kernel⟩
  · intro all
    have right := all ⟨both, .expire 1 1 (some 1), stopped⟩ (by simp) 1 1 _ rfl
    rw [stored, owed] at right
    norm_num at right
  · show 2 ∈ stopped.jobs PriorityQueue.sortedList
    decide +kernel

end SystemProgramming.Scheduling
