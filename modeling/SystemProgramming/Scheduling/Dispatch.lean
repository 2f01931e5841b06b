import Mathlib.Data.Multiset.Count
import SystemProgramming.Scheduling.Library

/-! No job is lost, and each job that is taken from the queue is the first one for the scheme. -/

namespace SystemProgramming.Scheduling

open Foundations

variable {Job Heap : Type*} {queue : PriorityQueue Job Heap}
  {Ordered : (Job → Job → Int) → Heap → Prop} {sched : Scheduler Job Heap}
  {st after final : State Job Heap} {job other : Job} {time : ℚ} {info : JobInfo}

/-- The jobs of the queue, and a running one. -/
def together (running : Option Job) (waiting : Multiset Job) : Multiset Job :=
  running.elim waiting (· ::ₘ waiting)

/-- A job is the running one or one of the queue. -/
theorem mem_together_iff {running : Option Job} {waiting : Multiset Job} :
    job ∈ together running waiting ↔ running = some job ∨ job ∈ waiting := by
  cases running <;> simp [together, eq_comm]

/-- A job more in the queue is a job more. -/
theorem together_cons (running : Option Job) (waiting : Multiset Job) (job : Job) :
    together running (job ::ₘ waiting) = job ::ₘ together running waiting := by
  cases running with
  | none => rfl
  | some other => exact Multiset.cons_swap other job waiting

/-- The jobs that run or wait in the queue. -/
def State.jobs (queue : PriorityQueue Job Heap) (st : State Job Heap) : Multiset Job :=
  together st.running (queue.contents st.scheduler.pqueue)

/-- The scheduler compares consistently. -/
theorem Scheduler.consistent (sched : Scheduler Job Heap) : Consistent sched.compare :=
  sched.scheme.consistent.comap sched.info

/-- What an offer does: the job is in the queue. -/
theorem offer_spec (lawful : queue.Lawful Ordered) (ordered : Ordered sched.compare sched.pqueue)
    (job : Job) :
    Ordered (sched.offer queue job).compare (sched.offer queue job).pqueue ∧
      queue.contents (sched.offer queue job).pqueue = job ::ₘ queue.contents sched.pqueue :=
  ⟨lawful.ordered_offer _ job _ sched.consistent ordered, lawful.contents_offer _ job _⟩

/-- What a poll does: it returns a least job, if there is one. -/
theorem poll_spec (lawful : queue.Lawful Ordered) (ordered : Ordered sched.compare sched.pqueue) :
    (queue.contents sched.pqueue = 0 ∧ sched.poll queue = (none, sched)) ∨
    ∃ job rest, sched.poll queue = (some job, { sched with pqueue := rest }) ∧
      queue.contents sched.pqueue = job ::ₘ queue.contents rest ∧ Ordered sched.compare rest ∧
      ∀ other ∈ queue.contents sched.pqueue, sched.compare job other ≤ 0 := by
  by_cases none : queue.contents sched.pqueue = 0
  · refine .inl ⟨none, ?_⟩
    rw [Scheduler.poll, lawful.poll_empty _ _ none]
  · obtain ⟨job, rest, polled, contents⟩ := lawful.contents_poll sched.compare _ none
    obtain ⟨kept, least⟩ := lawful.ordered_poll _ _ _ _ sched.consistent ordered polled
    exact .inr ⟨job, rest, by rw [Scheduler.poll, polled], contents, kept, least⟩

/--
What `scheduler_quantum_expired` does: it keeps the jobs together and changes the metadata of the
evicted job only; where it takes a job from the queue, no job comes before that one, and otherwise
the job goes on.
-/
structure Served (queue : PriorityQueue Job Heap) (Ordered : (Job → Job → Int) → Heap → Prop)
    (st : State Job Heap) (time : ℚ) (returned : Option Job) (sched : Scheduler Job Heap) :
    Prop where
  scheme : sched.scheme = st.scheduler.scheme
  ordered : Ordered sched.compare sched.pqueue
  jobs : together returned (queue.contents sched.pqueue) = st.jobs queue
  kept : ∀ other, st.running ≠ some other → sched.metadata other = st.scheduler.metadata other
  evicted : ∀ job, st.running = some job → ∃ info, st.scheduler.metadata job = some info ∧
    sched.metadata job = some (info.evict time)
  stays : ¬ st.scheduler.scheme.Preemptive → ∀ job, st.running = some job → returned = some job
  least : st.running = none ∨ st.scheduler.scheme.Preemptive → ∀ job, returned = some job →
    ∀ other ∈ st.jobs queue, sched.compare job other ≤ 0
  none_left : returned = none → st.jobs queue = 0

/-- Metadata that stays is the same. -/
theorem info_congr {sched sched' : Scheduler Job Heap}
    (same : sched'.metadata job = sched.metadata job) : sched'.info job = sched.info job := by
  rw [Scheduler.info, Scheduler.info, same]

/-- A job that is evicted has its new metadata. -/
theorem Served.info_evicted {returned : Option Job} {sched : Scheduler Job Heap}
    (served : Served queue Ordered st time returned sched) (runs : st.running = some job) :
    sched.info job = (st.scheduler.info job).evict time := by
  obtain ⟨info, known, stored⟩ := served.evicted job runs
  rw [Scheduler.info, Scheduler.info, known, stored]
  rfl

/-- While a job runs, it is one of the jobs, beside those in the queue. -/
theorem jobs_of_running (runs : st.running = some job) :
    st.jobs queue = job ::ₘ queue.contents st.scheduler.pqueue := by
  rw [State.jobs, runs]
  rfl

/-- While no job runs, all jobs are in the queue. -/
theorem jobs_of_idle (idle : st.running = none) :
    st.jobs queue = queue.contents st.scheduler.pqueue := by
  rw [State.jobs, idle]
  rfl

variable [DecidableEq Job]

/-- Other metadata of one job does not change how the others compare. -/
theorem ordered_update (lawful : queue.Lawful Ordered)
    (ordered : Ordered sched.compare sched.pqueue) (absent : job ∉ queue.contents sched.pqueue)
    (cell : Option JobInfo) :
    Ordered (Scheduler.compare { sched with metadata := Function.update sched.metadata job cell })
      sched.pqueue := by
  refine lawful.ordered_congr _ _ _ ?_ ordered
  intro a first b second
  -- Neither of the two jobs is the one that changes.
  have apart (c : Job) (member : c ∈ queue.contents sched.pqueue) :
      Function.update sched.metadata job cell c = sched.metadata c := by
    refine Function.update_of_ne ?_ _ _
    intro same
    exact absent (same ▸ member)
  simp only [Scheduler.compare, Scheduler.info, apart a first, apart b second]

/-- What `scheduler_new_job` does to the queue. -/
theorem contents_newJob (lawful : queue.Lawful Ordered) (sched : Scheduler Job Heap) (job : Job)
    (jobNumber : Int) (time : ℚ) (schedData : SchedulerInfo) :
    queue.contents (schedulerNewJob queue sched job jobNumber time schedData).pqueue =
      job ::ₘ queue.contents sched.pqueue :=
  lawful.contents_offer _ _ _

/-- What `scheduler_job_finished` does to the queue and the metadata. -/
theorem finish_spec {sched' : Scheduler Job Heap}
    (done : schedulerJobFinished sched job time = some sched') :
    sched'.scheme = sched.scheme ∧ sched'.pqueue = sched.pqueue ∧
      sched'.metadata = Function.update sched.metadata job none := by
  rw [schedulerJobFinished] at done
  split at done
  · cases done
  · cases done
    exact ⟨rfl, rfl, rfl⟩

/-- The jobs that run or wait are those offered and not finished, each of them once. -/
structure Proper (queue : PriorityQueue Job Heap) (Ordered : (Job → Job → Int) → Heap → Prop)
    (st : State Job Heap) : Prop where
  places : ∀ job, (st.jobs queue).count job =
    if job ∈ st.offered ∧ job ∉ st.finished then 1 else 0
  known : ∀ job ∈ st.jobs queue, ∃ info, st.scheduler.metadata job = some info
  offered : ∀ job ∈ st.finished, job ∈ st.offered
  ordered : Ordered st.scheduler.compare st.scheduler.pqueue

/-- A job that runs or waits is offered and not finished. -/
theorem Proper.mem_jobs_iff (proper : Proper queue Ordered st) :
    job ∈ st.jobs queue ↔ job ∈ st.offered ∧ job ∉ st.finished := by
  rw [← Multiset.one_le_count_iff_mem, proper.places]
  split <;> simp_all

/-- The running job is not in the queue. -/
theorem Proper.running_absent (proper : Proper queue Ordered st) (runs : st.running = some job) :
    job ∉ queue.contents st.scheduler.pqueue := by
  intro waits
  have once := proper.places job
  have waiting := Multiset.one_le_count_iff_mem.mpr waits
  -- It would count twice.
  rw [State.jobs, runs, together, Option.elim_some, Multiset.count_cons_self] at once
  split at once <;> omega

/-- The running job has its metadata. -/
theorem Proper.running_known (proper : Proper queue Ordered st) (runs : st.running = some job) :
    ∃ info, st.scheduler.metadata job = some info := by
  apply proper.known
  rw [State.jobs, runs]
  exact Multiset.mem_cons_self _ _

section Served

variable {returned : Option Job} {sched : Scheduler Job Heap}

/-- Without a running job, `scheduler_quantum_expired` polls the queue. -/
theorem Proper.served_idle (lawful : queue.Lawful Ordered) (proper : Proper queue Ordered st)
    (idle : st.running = none)
    (done : schedulerQuantumExpired queue st.scheduler none time = some (returned, sched)) :
    Served queue Ordered st time returned sched := by
  rw [schedulerQuantumExpired, Option.some_inj] at done
  have waiting : st.jobs queue = queue.contents st.scheduler.pqueue := jobs_of_idle idle
  have nobody (job : Job) : st.running ≠ some job := by simp [idle]
  rcases poll_spec lawful proper.ordered with
    ⟨none, polled⟩ | ⟨job, rest, polled, taken, kept, least⟩
  · -- The queue is empty, so there is no job at all.
    obtain ⟨rfl, rfl⟩ := Prod.mk.inj (done.symm.trans polled)
    exact {
      scheme := rfl
      ordered := proper.ordered
      jobs := waiting.symm
      kept := fun _ _ => rfl
      evicted := fun job some => absurd some (nobody job)
      stays := fun _ job some => absurd some (nobody job)
      least := fun _ _ some => by cases some
      none_left := fun _ => waiting.trans none }
  · obtain ⟨rfl, rfl⟩ := Prod.mk.inj (done.symm.trans polled)
    exact {
      scheme := rfl
      ordered := kept
      jobs := taken.symm.trans waiting.symm
      kept := fun _ _ => rfl
      evicted := fun job some => absurd some (nobody job)
      stays := fun _ job some => absurd some (nobody job)
      least := fun _ _ some => by
        cases some
        rw [waiting]
        exact least
      none_left := fun none => by cases none }

/-- A running job is evicted, and goes back into the queue or goes on. -/
theorem Proper.served_running (lawful : queue.Lawful Ordered) (proper : Proper queue Ordered st)
    (runs : st.running = some job)
    (done : schedulerQuantumExpired queue st.scheduler (some job) time = some (returned, sched)) :
    Served queue Ordered st time returned sched := by
  obtain ⟨info, known⟩ := proper.running_known runs
  have absent := proper.running_absent runs
  -- The evicted job is not in the queue, so its new metadata leaves the queue ordered.
  have ordered := ordered_update lawful proper.ordered absent (some (info.evict time))
  have kept (other : Job) (apart : st.running ≠ some other) :
      Function.update st.scheduler.metadata job (some (info.evict time)) other =
        st.scheduler.metadata other := by
    refine Function.update_of_ne ?_ _ _
    intro same
    exact apart (same ▸ runs)
  have evicted (other : Job) (mine : st.running = some other) :
      ∃ old, st.scheduler.metadata other = some old ∧
        Function.update st.scheduler.metadata job (some (info.evict time)) other =
          some (old.evict time) := by
    obtain rfl := Option.some.inj (mine.symm.trans runs)
    exact ⟨info, known, Function.update_self _ _ _⟩
  have all : st.jobs queue = job ::ₘ queue.contents st.scheduler.pqueue := jobs_of_running runs
  simp only [schedulerQuantumExpired, known] at done
  split at done
  · -- The job goes back into the queue, and the first one of all jobs comes out.
    rename_i preemptive
    obtain ⟨filed, contents⟩ := offer_spec lawful ordered job
    rcases poll_spec lawful filed with ⟨none, _⟩ | ⟨next, rest, polled, taken, left, least⟩
    · rw [contents] at none
      exact absurd none Multiset.cons_ne_zero
    · rw [contents] at taken least
      obtain ⟨rfl, rfl⟩ := Prod.mk.inj ((Option.some.inj done).symm.trans polled)
      exact {
        scheme := rfl
        ordered := left
        jobs := taken.symm.trans all.symm
        kept := kept
        evicted := evicted
        stays := fun never => absurd preemptive never
        least := fun _ _ some => by
          cases some
          rw [all]
          exact least
        none_left := fun none => by cases none }
  · -- The job goes on.
    rename_i stays
    obtain ⟨rfl, rfl⟩ := Prod.mk.inj (Option.some.inj done)
    exact {
      scheme := rfl
      ordered := ordered
      jobs := all.symm
      kept := kept
      evicted := evicted
      stays := fun _ _ mine => runs.symm.trans mine
      least := fun takes => absurd takes (by simp [runs, stays])
      none_left := fun none => by cases none }

/-- What `scheduler_quantum_expired` does in a proper state. -/
theorem Proper.served (lawful : queue.Lawful Ordered) (proper : Proper queue Ordered st)
    (done : schedulerQuantumExpired queue st.scheduler st.running time = some (returned, sched)) :
    Served queue Ordered st time returned sched := by
  cases runs : st.running with
  | none => exact proper.served_idle lawful runs (runs ▸ done)
  | some job => exact proper.served_running lawful runs (runs ▸ done)

end Served

/-- Everything that `scheduler_quantum_expired` does keeps the state proper. -/
theorem Served.proper (proper : Proper queue Ordered st) {returned : Option Job}
    {sched : Scheduler Job Heap} (served : Served queue Ordered st time returned sched)
    (since : ℚ) (received : Job → ℚ) :
    Proper queue Ordered
      { st with
        scheduler := sched, running := returned, since := since, received := received } where
  places job := by
    show (together returned _).count job = _
    rw [served.jobs, proper.places]
  known job member := by
    have before : job ∈ st.jobs queue := served.jobs ▸ member
    by_cases mine : st.running = some job
    · obtain ⟨info, _, evicted⟩ := served.evicted job mine
      exact ⟨_, evicted⟩
    · obtain ⟨info, found⟩ := proper.known job before
      exact ⟨info, (served.kept job mine).trans found⟩
  offered := proper.offered
  ordered := served.ordered

/-- A job that is offered for the first time waits in the queue. -/
theorem Proper.newJob {jobNumber : Int} {schedData : SchedulerInfo} (lawful : queue.Lawful Ordered)
    (proper : Proper queue Ordered st) (fresh : job ∉ st.offered) :
    Proper queue Ordered
      { st with
        scheduler := schedulerNewJob queue st.scheduler job jobNumber time schedData
        offered := st.offered ++ [job] } := by
  -- A job that was never offered is not in the queue.
  have absent : job ∉ queue.contents st.scheduler.pqueue := by
    intro waits
    exact fresh (proper.mem_jobs_iff.mp (mem_together_iff.mpr (.inr waits))).1
  have refiled := ordered_update lawful proper.ordered absent
    (some (newInfo jobNumber time schedData))
  have jobs : State.jobs queue
      { st with
        scheduler := schedulerNewJob queue st.scheduler job jobNumber time schedData
        offered := st.offered ++ [job] } = job ::ₘ st.jobs queue := by
    rw [State.jobs, contents_newJob lawful, together_cons]
    rfl
  refine ⟨fun other => ?_, fun other member => ?_, fun other member => ?_,
    (offer_spec lawful refiled job).1⟩
  · have unfinished : job ∉ st.finished := fun member => fresh (proper.offered job member)
    rw [jobs, Multiset.count_cons, proper.places]
    by_cases same : other = job
    · simp [same, fresh, unfinished]
    · simp [same]
  · rw [jobs, Multiset.mem_cons] at member
    by_cases same : other = job
    · subst same
      exact ⟨_, Function.update_self _ _ _⟩
    · obtain ⟨info, found⟩ := proper.known other (member.resolve_left same)
      exact ⟨info, (Function.update_of_ne same _ _).trans found⟩
  · exact List.mem_append_left _ (proper.offered other member)

/-- The job that runs is finished, and no other one. -/
theorem Proper.finish {sched : Scheduler Job Heap} (lawful : queue.Lawful Ordered)
    (proper : Proper queue Ordered st) (runs : st.running = some job)
    (done : schedulerJobFinished st.scheduler job time = some sched) (received : Job → ℚ) :
    Proper queue Ordered
      { st with
        scheduler := sched, running := none, finished := st.finished ++ [job]
        received := received } := by
  have absent := proper.running_absent runs
  obtain ⟨scheme, pqueue, metadata⟩ := finish_spec done
  have member : job ∈ st.jobs queue := mem_together_iff.mpr (.inl runs)
  have all : st.jobs queue = job ::ₘ queue.contents st.scheduler.pqueue := jobs_of_running runs
  -- The scheduler is the old one, as far as the queue and its order go.
  have ordered : Ordered sched.compare sched.pqueue := by
    have kept := ordered_update lawful proper.ordered absent none
    have same : sched.compare = Scheduler.compare
        { st.scheduler with metadata := Function.update st.scheduler.metadata job none } := by
      funext a b
      rw [Scheduler.compare, Scheduler.info, Scheduler.info, scheme, metadata]
      rfl
    rw [same, pqueue]
    exact kept
  refine ⟨fun other => ?_, fun other waits => ?_, fun other done => ?_, ordered⟩
  · show (queue.contents sched.pqueue).count other = _
    rw [pqueue]
    have counted := proper.places other
    rw [all, Multiset.count_cons] at counted
    by_cases same : other = job
    · -- The finished job is gone.
      subst same
      simp [absent]
    · simpa [same] using counted
  · have queued : other ∈ queue.contents st.scheduler.pqueue := pqueue ▸ waits
    have apart : other ≠ job := fun same => absent (same ▸ queued)
    obtain ⟨info, found⟩ := proper.known other (mem_together_iff.mpr (.inr queued))
    refine ⟨info, ?_⟩
    show sched.metadata other = some info
    rw [metadata, Function.update_of_ne apart, found]
  · rcases List.mem_append.mp done with old | new
    · exact proper.offered other old
    · rw [List.mem_singleton.mp new]
      exact (proper.mem_jobs_iff.mp member).1

/-- Every step keeps the state proper. -/
theorem Proper.step (lawful : queue.Lawful Ordered) (proper : Proper queue Ordered st)
    {event : Event Job} (step : Step queue st event after) : Proper queue Ordered after := by
  cases step with
  | newJob fresh => exact proper.newJob lawful fresh
  | dispatch idle done =>
    rw [← idle] at done
    exact (proper.served lawful done).proper proper _ _
  | expire runs done =>
    rw [← runs] at done
    exact (proper.served lawful done).proper proper _ _
  | finish runs done => exact proper.finish lawful runs done _

variable {scheme : Scheme} {trace : List (Transition (State Job Heap) (Event Job))}
  {event : Event Job}

/-- Every reachable state is proper. -/
theorem proper_of_run (lawful : queue.Lawful Ordered)
    (run : Run (Step queue) (start queue scheme) trace final) : Proper queue Ordered final := by
  have initial : Proper queue Ordered (start queue scheme : State Job Heap) := by
    have none : (start queue scheme : State Job Heap).jobs queue = 0 := lawful.contents_empty
    refine ⟨?_, ?_, ?_, lawful.ordered_empty _⟩
    · intro job
      rw [none]
      simp [start]
    · intro job member
      rw [none] at member
      exact absurd member (Multiset.notMem_zero job)
    · intro job member
      cases member
  exact run.invariant initial fun _ _ _ proper step => proper.step lawful step

/-- A step that asks for a job does what `scheduler_quantum_expired` does. -/
theorem Proper.served_of_step (lawful : queue.Lawful Ordered) (proper : Proper queue Ordered st)
    (step : Step queue st event after) (asks : event.Asks) :
    Served queue Ordered st event.time event.returned after.scheduler := by
  cases step with
  | dispatch idle done =>
    rw [← idle] at done
    exact proper.served lawful done
  | expire runs done =>
    rw [← runs] at done
    exact proper.served lawful done
  | newJob _ | finish _ _ => exact asks.elim

/-- What a step has done to a job that runs or waits after it. -/
inductive Fate (queue : PriorityQueue Job Heap) (st : State Job Heap) (event : Event Job)
    (after : State Job Heap) (job : Job) : Prop
  | stays : job ∈ st.jobs queue → after.scheduler.metadata job = st.scheduler.metadata job →
      after.received job = st.received job → Fate queue st event after job
  | comes {jobNumber : Int} {time : ℚ} {schedData : SchedulerInfo} :
      event = .newJob job jobNumber time schedData → job ∉ st.offered →
      after.scheduler.info job = newInfo jobNumber time schedData →
      after.received job = st.received job → Fate queue st event after job
  | stops {time : ℚ} {returned : Option Job} :
      event = .expire job time returned → st.running = some job →
      after.scheduler.info job = (st.scheduler.info job).evict time →
      after.received job = st.received job + (time - st.since) → Fate queue st event after job

/-- A job that runs or waits is left alone, or has just come, or has just been stopped. -/
theorem Proper.fate (lawful : queue.Lawful Ordered) (proper : Proper queue Ordered st)
    (step : Step queue st event after) (member : job ∈ after.jobs queue) :
    Fate queue st event after job := by
  cases step with
  | @newJob new jobNumber time schedData fresh =>
    by_cases same : job = new
    · subst same
      refine .comes rfl fresh ?_ rfl
      simp [Scheduler.info, schedulerNewJob, Scheduler.offer]
    · have waits := mem_together_iff.mp member
      rw [contents_newJob lawful, Multiset.mem_cons, or_iff_right same] at waits
      exact .stays (mem_together_iff.mpr waits) (Function.update_of_ne same _ _) rfl
  | @dispatch time returned sched idle done =>
    have served := proper.served_of_step lawful (.dispatch idle done) trivial
    exact .stays (served.jobs ▸ member) (served.kept job (by simp [idle])) rfl
  | @expire evicted time returned sched runs done =>
    have served := proper.served_of_step lawful (.expire runs done) trivial
    by_cases same : job = evicted
    · subst same
      exact .stops rfl runs (served.info_evicted runs) (Function.update_self _ _ _)
    · refine .stays (served.jobs ▸ member) (served.kept job ?_) (Function.update_of_ne same _ _)
      intro mine
      exact same (Option.some.inj (mine.symm.trans runs))
  | @finish done time sched runs finished =>
    -- What waits is not the finished job.
    obtain ⟨_, pqueue, metadata⟩ := finish_spec finished
    have waits : job ∈ queue.contents st.scheduler.pqueue := pqueue ▸ member
    have apart : job ≠ done := fun same => proper.running_absent runs (same ▸ waits)
    refine .stays (mem_together_iff.mpr (.inr waits)) ?_ (Function.update_of_ne apart _ _)
    show sched.metadata job = _
    rw [metadata, Function.update_of_ne apart]

/-- No step changes the scheme. -/
theorem Proper.scheme_step (lawful : queue.Lawful Ordered) (proper : Proper queue Ordered st)
    (step : Step queue st event after) : after.scheduler.scheme = st.scheduler.scheme := by
  by_cases asks : event.Asks
  · exact (proper.served_of_step lawful step asks).scheme
  · cases step with
    | newJob _ => rfl
    | finish _ done => exact (finish_spec done).1
    | dispatch _ _ | expire _ _ => exact absurd trivial asks

/-- The scheme stays that of the start. -/
theorem scheme_of_run (lawful : queue.Lawful Ordered)
    (run : Run (Step queue) (start queue scheme) trace final) :
    final.scheduler.scheme = scheme := by
  induction run with
  | start => rfl
  | next earlier step ih =>
    exact ((proper_of_run lawful earlier).scheme_step lawful step).trans ih

/-- A running job goes on, is finished, or its quantum expires. -/
theorem running_of_step (step : Step queue st event after) (runs : st.running = some job) :
    after.running = some job ∨ (∃ time, event = .finish job time) ∨
      ∃ time returned, event = .expire job time returned ∧ after.running = returned := by
  cases step with
  | newJob _ => exact .inl runs
  | dispatch idle _ =>
    rw [idle] at runs
    cases runs
  | expire mine _ =>
    obtain rfl := Option.some.inj (mine.symm.trans runs)
    exact .inr (.inr ⟨_, _, rfl, rfl⟩)
  | finish mine _ =>
    obtain rfl := Option.some.inj (mine.symm.trans runs)
    exact .inr (.inl ⟨_, rfl⟩)

/--
In every run, under each scheme: a job that is offered and not finished runs or waits in the queue,
exactly once, with its metadata; no job is returned only if all are finished; under `FCFS`, `SJF` and
`PRI` a running job goes on until it is finished; and where a job is taken from the queue, no
unfinished job comes before it for the comparer of the scheme.
-/
theorem dispatches_by_policy (lawful : queue.Lawful Ordered) (scheme : Scheme)
    (run : Run (Step queue) (start queue scheme) trace final) :
    (∀ job, (final.jobs queue).count job =
      if job ∈ final.offered ∧ job ∉ final.finished then 1 else 0) ∧
    (∀ job ∈ final.jobs queue, ∃ info, final.scheduler.metadata job = some info) ∧
    ∀ taken ∈ trace,
      (taken.action.Asks → taken.action.returned = none →
        ∀ job ∈ taken.before.offered, job ∈ taken.before.finished) ∧
      (scheme = .FCFS ∨ scheme = .SJF ∨ scheme = .PRI →
        ∀ job, taken.before.running = some job →
          taken.after.running = some job ∨ ∃ time, taken.action = .finish job time) ∧
      (taken.before.running = none ∨ scheme = .PPRI ∨ scheme = .PSRTF ∨ scheme = .RR →
        ∀ job, taken.action.returned = some job →
          job ∈ taken.before.jobs queue ∧ ∀ other ∈ taken.before.jobs queue,
            scheme.comparer (taken.after.scheduler.info job) (taken.after.scheduler.info other)
              ≤ 0) := by
  have proper := proper_of_run lawful run
  refine ⟨proper.places, proper.known, ?_⟩
  intro taken member
  obtain ⟨step, earlier, before⟩ := run.split_at member
  have proper := proper_of_run lawful before
  have chosen := scheme_of_run lawful before
  refine ⟨?_, ?_, ?_⟩
  · intro asks none job offered
    have empty := (proper.served_of_step lawful step asks).none_left none
    -- An unfinished job would be there.
    by_contra unfinished
    have waits := proper.mem_jobs_iff.mpr ⟨offered, unfinished⟩
    rw [empty] at waits
    exact Multiset.notMem_zero job waits
  · intro patient job runs
    rcases running_of_step step runs with same | finished | ⟨time, returned, expired, next⟩
    · exact .inl same
    · exact .inr finished
    · -- These schemes give the same job back.
      have served := proper.served_of_step lawful step (by rw [expired]; trivial)
      have never : ¬ taken.before.scheduler.scheme.Preemptive := by
        rw [chosen]
        rcases patient with rfl | rfl | rfl <;> decide
      have stays := served.stays never job runs
      rw [expired] at stays
      exact .inl (next.trans stays)
  · intro takes job returned
    have asks : taken.action.Asks := by
      cases action : taken.action with
      | dispatch _ _ | expire _ _ _ => trivial
      | newJob _ _ _ _ | finish _ _ =>
        rw [action] at returned
        cases returned
    have served := proper.served_of_step lawful step asks
    have least := served.least (chosen ▸ takes) job returned
    rw [← chosen, ← served.scheme]
    refine ⟨?_, least⟩
    rw [← served.jobs, returned]
    exact Multiset.mem_cons_self _ _

/-- A state after a new job. -/
def offeredTo (st : State Nat (List Nat)) (job : Nat) (time : ℚ) (schedData : SchedulerInfo) :
    State Nat (List Nat) :=
  { st with
    scheduler := schedulerNewJob PriorityQueue.sortedList st.scheduler job job time schedData
    offered := st.offered ++ [job] }

/-- A state after a call without a running job. -/
def dispatchedTo (st : State Nat (List Nat)) (time : ℚ) (next : Nat) : State Nat (List Nat) :=
  { st with
    scheduler := (st.scheduler.poll PriorityQueue.sortedList).2
    running := some next
    since := time }

/-- A state after the quantum of a job. -/
def expiredTo (st : State Nat (List Nat)) (job : Nat) (time : ℚ) : State Nat (List Nat) :=
  match schedulerQuantumExpired PriorityQueue.sortedList st.scheduler (some job) time with
  | some done =>
    { st with
      scheduler := done.2, running := done.1, since := time, received := st.stop job time }
  | none => st

/-- The quantum of a running job ends. -/
theorem step_expiredTo {st : State Nat (List Nat)} {job : Nat} {time : ℚ}
    (runs : st.running = some job) (known : (st.scheduler.metadata job).isSome) :
    Step PriorityQueue.sortedList st (.expire job time (expiredTo st job time).running)
      (expiredTo st job time) := by
  rw [expiredTo]
  cases done : schedulerQuantumExpired PriorityQueue.sortedList st.scheduler (some job) time with
  | some result => exact .expire runs done
  | none =>
    obtain ⟨info, found⟩ := Option.isSome_iff_exists.mp known
    simp only [schedulerQuantumExpired, found] at done
    split at done <;> cases done

/-- Under `PPRI`, a job that is evicted by one of a better priority is in the queue, once. -/
theorem dispatches_by_policy_ppri : ∃ final : State Nat (List Nat), final.running = some 2 ∧
    (final.jobs PriorityQueue.sortedList).count 1 = 1 := by
  let first := offeredTo (start PriorityQueue.sortedList .PPRI) 1 0 ⟨2, 10⟩
  let alone := dispatchedTo first 0 1
  let second := offeredTo alone 2 1 ⟨1, 10⟩
  let evicted := expiredTo second 1 1
  have offer : Step PriorityQueue.sortedList (start PriorityQueue.sortedList .PPRI)
      (.newJob 1 1 0 ⟨2, 10⟩) first := .newJob (by decide)
  have dispatch : Step PriorityQueue.sortedList first (.dispatch 0 (some 1)) alone :=
    .dispatch rfl rfl
  have urgent : Step PriorityQueue.sortedList alone (.newJob 2 2 1 ⟨1, 10⟩) second :=
    .newJob (by decide)
  have expire : Step PriorityQueue.sortedList second (.expire 1 1 (some 2)) evicted :=
    .expire rfl rfl
  have run := (((Run.start.next offer).next dispatch).next urgent).next expire
  exact ⟨evicted, rfl, (dispatches_by_policy PriorityQueue.lawful_sortedList .PPRI run).1 1⟩

end SystemProgramming.Scheduling
