import Mathlib.Tactic.NormNum
import SystemProgramming.Foundations.Rotation
import SystemProgramming.Scheduling.Dispatch

/-! Under `RR`, all jobs that are queued when a job is evicted have their turn before it is back. -/

namespace SystemProgramming.Scheduling

open Foundations

variable {Job Heap : Type*} {queue : PriorityQueue Job Heap}
  {Ordered : (Job → Job → Int) → Heap → Prop} {st after final : State Job Heap}
  {job evicted : Job} {time : ℚ} {info : JobInfo} {event : Event Job} {queued : Multiset Job}
  {returned : List Job} {trace : List (Transition (State Job Heap) (Event Job))}

/-- The time by which `comparer_rr` orders a job. -/
def Scheduler.stamp (sched : Scheduler Job Heap) (job : Job) : ℚ := (sched.info job).rrTime

/-- The jobs that calls return. -/
def returns (trace : List (Transition (State Job Heap) (Event Job))) : List Job :=
  trace.filterMap fun taken => taken.action.returned

/-- The times of calls. -/
def times (trace : List (Transition (State Job Heap) (Event Job))) : List ℚ :=
  trace.map fun taken => taken.action.time

@[simp] theorem evict_rrTime : (info.evict time).rrTime = time := by
  rw [JobInfo.evict]
  split <;> rfl

/-- A job that comes first for `comparer_rr` has no later stamp. -/
theorem stamp_le_of_comparerRr {a b : JobInfo} (first : comparerRr a b ≤ 0) :
    a.rrTime ≤ b.rrTime := by
  rw [comparerRr, compareBy_nonpos_iff] at first
  exact first.elim le_of_lt fun tie => tie.1.le

/-- Metadata that stays keeps its stamp. -/
theorem stamp_congr {sched sched' : Scheduler Job Heap}
    (same : sched'.metadata job = sched.metadata job) : sched'.stamp job = sched.stamp job := by
  rw [Scheduler.stamp, Scheduler.stamp, info_congr same]

/-- The job that just ran is stamped with the time. -/
theorem Served.stamp_evicted {next : Option Job} {sched : Scheduler Job Heap}
    (served : Served queue Ordered st time next sched) (runs : st.running = some job) :
    sched.stamp job = time := by
  rw [Scheduler.stamp, served.info_evicted runs, evict_rrTime]

/-- Later calls have later times. -/
theorem times_before {earlier later : List (Transition (State Job Heap) (Event Job))}
    {now : Transition (State Job Heap) (Event Job)}
    (increasing : (times (earlier ++ now :: later)).Pairwise (· < ·)) :
    (∀ past ∈ times earlier, past < now.action.time) ∧
      ∀ taken ∈ later, now.action.time < taken.action.time := by
  rw [times, List.map_append, List.map_cons, List.pairwise_append, List.pairwise_cons] at increasing
  obtain ⟨_, ⟨after, _⟩, before⟩ := increasing
  refine ⟨fun past member => before past member _ List.mem_cons_self, fun taken member => ?_⟩
  exact after _ (List.mem_map_of_mem member)

variable [DecidableEq Job]

/-- No job runs or waits twice. -/
theorem Proper.nodup (proper : Proper queue Ordered st) : (st.jobs queue).Nodup := by
  rw [Multiset.nodup_iff_count_le_one]
  intro job
  rw [proper.places]
  split <;> omega

/-- The jobs of the queue keep their stamps. -/
theorem Served.stamp_queued {next : Option Job} {sched : Scheduler Job Heap}
    (proper : Proper queue Ordered st) (served : Served queue Ordered st time next sched)
    (waits : job ∈ queue.contents st.scheduler.pqueue) :
    sched.stamp job = st.scheduler.stamp job := by
  apply stamp_congr
  apply served.kept
  intro runs
  exact proper.running_absent runs waits

/-- An evicted job waits in the queue; the jobs returned since then had been offered before. -/
structure Awaiting (queue : PriorityQueue Job Heap) (evicted : Job) (time : ℚ)
    (queued : Multiset Job) (returned : List Job) (st : State Job Heap) : Prop where
  awaits : Awaits st.scheduler.stamp (queue.contents st.scheduler.pqueue) evicted time queued
    returned
  offered : ∀ job ∈ returned, job ∈ st.offered

/--
What a call for a job does, where all jobs, the one that just ran with its new stamp, wait for the
evicted one: it returns that one, or one that had not been returned.
-/
theorem Served.turn {next : Option Job} {sched : Scheduler Job Heap} {now : ℚ}
    (proper : Proper queue Ordered st) (served : Served queue Ordered st now next sched)
    (scheme : st.scheduler.scheme = .RR)
    (awaits : Awaits sched.stamp (st.jobs queue) evicted time queued returned) :
    (next ≠ some evicted → Awaits sched.stamp (queue.contents sched.pqueue) evicted time queued
      (returned ++ next.toList)) ∧
    (next = some evicted → ∀ job ∈ queued, job ∈ returned) := by
  cases taken : next with
  | none =>
    -- There is a job to return, since the evicted one waits.
    have empty := served.none_left taken
    have waits := awaits.waits
    rw [empty] at waits
    exact absurd waits (Multiset.notMem_zero evicted)
  | some first =>
    have least (other : Job) (waits : other ∈ st.jobs queue) :
        sched.stamp first ≤ sched.stamp other := by
      have preemptive : st.scheduler.scheme.Preemptive := by rw [scheme]; decide
      have comes := served.least (.inr preemptive) first taken other waits
      rw [Scheduler.compare, served.scheme, scheme] at comes
      exact stamp_le_of_comparerRr comes
    have all : st.jobs queue = first ::ₘ queue.contents sched.pqueue := by
      rw [← served.jobs, taken]
      rfl
    constructor
    · intro other
      have apart : first ≠ evicted := fun same => other (congrArg some same)
      have nodup := proper.nodup
      rw [all] at nodup
      exact (all ▸ awaits).take nodup (least evicted awaits.waits) apart
    · intro back
      obtain rfl := Option.some.inj back
      exact awaits.complete least

/-- The job that just ran goes back behind the evicted one. -/
theorem Served.back {next : Option Job} {sched : Scheduler Job Heap} {now : ℚ}
    (proper : Proper queue Ordered st) (served : Served queue Ordered st now next sched)
    (awaits : Awaits st.scheduler.stamp (queue.contents st.scheduler.pqueue) evicted time queued
      returned) (later : time < now) :
    Awaits sched.stamp (st.jobs queue) evicted time queued returned := by
  have kept := awaits.congr fun job waits => served.stamp_queued proper waits
  rw [State.jobs]
  cases runs : st.running with
  | none => exact kept
  | some job => exact kept.add (.inr ((served.stamp_evicted runs).symm ▸ later))

/-- A new job has not been returned, and the others keep their stamps. -/
theorem Awaiting.newJob (lawful : queue.Lawful Ordered) (proper : Proper queue Ordered st)
    (awaiting : Awaiting queue evicted time queued returned st) (fresh : job ∉ st.offered)
    (jobNumber : Int) (now : ℚ) (schedData : SchedulerInfo) :
    Awaiting queue evicted time queued returned
      { st with
        scheduler := schedulerNewJob queue st.scheduler job jobNumber now schedData
        offered := st.offered ++ [job] } where
  awaits := by
    rw [contents_newJob lawful]
    refine (awaiting.awaits.congr ?_).add (.inl fun member => fresh (awaiting.offered job member))
    intro waiting waits
    have apart : waiting ≠ job := by
      intro same
      have known := proper.mem_jobs_iff.mp (mem_together_iff.mpr (.inr waits))
      exact fresh (same ▸ known.1)
    exact stamp_congr (Function.update_of_ne apart _ _)
  offered other member := List.mem_append_left _ (awaiting.offered other member)

/-- A job that is finished was not in the queue. -/
theorem Awaiting.finish (proper : Proper queue Ordered st)
    (awaiting : Awaiting queue evicted time queued returned st) (runs : st.running = some job)
    {now : ℚ} {sched : Scheduler Job Heap}
    (done : schedulerJobFinished st.scheduler job now = some sched) :
    Awaiting queue evicted time queued returned
      { st with
        scheduler := sched, running := none, finished := st.finished ++ [job]
        received := st.stop job now } where
  awaits := by
    obtain ⟨_, pqueue, metadata⟩ := finish_spec done
    have absent := proper.running_absent runs
    show Awaits sched.stamp (queue.contents sched.pqueue) evicted time queued returned
    rw [pqueue]
    refine awaiting.awaits.congr ?_
    intro waiting waits
    have apart : waiting ≠ job := fun same => absent (same ▸ waits)
    exact stamp_congr (by rw [metadata, Function.update_of_ne apart])
  offered := awaiting.offered

/--
A call for a job, where all jobs, the one that just ran with its new stamp, wait for the evicted one:
that one is returned, or one that had not been returned.
-/
theorem Proper.turn (lawful : queue.Lawful Ordered) (proper : Proper queue Ordered st)
    (scheme : st.scheduler.scheme = .RR) (step : Step queue st event after) (asks : event.Asks)
    (awaits : Awaits after.scheduler.stamp (st.jobs queue) evicted time queued returned)
    (offered : ∀ job ∈ returned, job ∈ st.offered) :
    (event.returned ≠ some evicted →
      Awaiting queue evicted time queued (returned ++ event.returned.toList) after) ∧
    (event.returned = some evicted → ∀ job ∈ queued, job ∈ returned) := by
  have served := proper.served_of_step lawful step asks
  obtain ⟨goes, comes⟩ := served.turn proper scheme awaits
  refine ⟨fun other => ⟨goes other, ?_⟩, comes⟩
  -- What is returned was offered before.
  intro job member
  have same : after.offered = st.offered := by
    cases step with
    | dispatch _ _ | expire _ _ => rfl
    | newJob _ | finish _ _ => exact asks.elim
  rw [same]
  rcases List.mem_append.mp member with old | new
  · exact offered job old
  · have mine : event.returned = some job := Option.mem_toList.mp new
    have all := served.jobs
    rw [mine] at all
    exact (proper.mem_jobs_iff.mp (all ▸ Multiset.mem_cons_self job _)).1

/-- A job that is evicted goes behind all that wait, whose stamps are earlier. -/
theorem Awaiting.evict (lawful : queue.Lawful Ordered) (proper : Proper queue Ordered st)
    (scheme : st.scheduler.scheme = .RR) {next : Option Job}
    (step : Step queue st (.expire evicted time next) after)
    (earlier : ∀ job ∈ queue.contents st.scheduler.pqueue, st.scheduler.stamp job < time) :
    (next ≠ some evicted →
      Awaiting queue evicted time (queue.contents st.scheduler.pqueue) next.toList after) ∧
    (next = some evicted → ∀ job, job ∉ queue.contents st.scheduler.pqueue) := by
  have served := proper.served_of_step lawful step trivial
  have runs : st.running = some evicted := by
    cases step with
    | expire runs _ => exact runs
  have awaits : Awaits after.scheduler.stamp (st.jobs queue) evicted time
      (queue.contents st.scheduler.pqueue) [] := by
    rw [State.jobs, runs]
    refine Awaits.start (served.stamp_evicted runs) ?_
    intro job waits
    rw [served.stamp_queued proper waits]
    exact earlier job waits
  obtain ⟨goes, comes⟩ := proper.turn lawful scheme step trivial awaits (by simp)
  exact ⟨goes, fun back job waits => absurd (comes back job waits) List.not_mem_nil⟩

/--
As long as the evicted job is not returned, it waits, and no job is returned twice; when it is
returned, all jobs queued before it have been.
-/
theorem Awaiting.step (lawful : queue.Lawful Ordered) (proper : Proper queue Ordered st)
    (scheme : st.scheduler.scheme = .RR)
    (awaiting : Awaiting queue evicted time queued returned st)
    (step : Step queue st event after) (later : time < event.time) :
    (event.returned ≠ some evicted →
      Awaiting queue evicted time queued (returned ++ event.returned.toList) after) ∧
    (event.returned = some evicted → ∀ job ∈ queued, job ∈ returned) := by
  by_cases asks : event.Asks
  · have served := proper.served_of_step lawful step asks
    exact proper.turn lawful scheme step asks (served.back proper awaiting.awaits later)
      awaiting.offered
  · have none := returned_of_not_asks asks
    refine ⟨fun _ => ?_, fun back => by rw [none] at back; cases back⟩
    rw [none, Option.toList_none, List.append_nil]
    cases step with
    | newJob fresh => exact awaiting.newJob lawful proper fresh _ _ _
    | finish runs done => exact awaiting.finish proper runs done
    | dispatch _ _ | expire _ _ => exact absurd trivial asks

/-- The same for a run that does not return the evicted job. -/
theorem Awaiting.run (lawful : queue.Lawful Ordered) (proper : Proper queue Ordered st)
    (scheme : st.scheduler.scheme = .RR)
    (awaiting : Awaiting queue evicted time queued returned st)
    (run : Run (Step queue) st trace final)
    (later : ∀ taken ∈ trace, time < taken.action.time)
    (others : ∀ taken ∈ trace, taken.action.returned ≠ some evicted) :
    Proper queue Ordered final ∧ final.scheduler.scheme = .RR ∧
      Awaiting queue evicted time queued (returned ++ returns trace) final := by
  -- The induction is on the run, which ends with a step that returns another job or none.
  induction run with
  | start => exact ⟨proper, scheme, (List.append_nil returned).symm ▸ awaiting⟩
  | @next trace before after event _ step ih =>
    obtain ⟨proper, scheme, past⟩ :=
      ih (fun taken member => later taken (List.mem_append_left _ member))
        fun taken member => others taken (List.mem_append_left _ member)
    have now := (past.step lawful proper scheme step
      (later ⟨before, event, after⟩ (by simp))).1 (others ⟨before, event, after⟩ (by simp))
    refine ⟨proper.step lawful step, (proper.scheme_step lawful step).trans scheme, ?_⟩
    have grown : returns (trace ++ [⟨before, event, after⟩]) =
        returns trace ++ event.returned.toList := by
      rw [returns, List.filterMap_append]
      cases returned : event.returned <;> simp [returns, returned]
    rwa [grown, ← List.append_assoc]

/-- A job is stamped with -1 or with the time of a call. -/
def Stamped (queue : PriorityQueue Job Heap)
    (trace : List (Transition (State Job Heap) (Event Job))) (st : State Job Heap) : Prop :=
  ∀ job ∈ st.jobs queue, st.scheduler.stamp job = -1 ∨ st.scheduler.stamp job ∈ times trace

/-- Every step stamps the evicted job only, with its time, or a new one with -1. -/
theorem Stamped.step (lawful : queue.Lawful Ordered) (proper : Proper queue Ordered st)
    (stamped : Stamped queue trace st) (step : Step queue st event after) :
    Stamped queue (trace ++ [⟨st, event, after⟩]) after := by
  have longer : times (trace ++ [⟨st, event, after⟩]) = times trace ++ [event.time] := by
    simp [times]
  intro job member
  rw [longer]
  cases proper.fate lawful step member with
  | stays before same _ =>
    rw [stamp_congr same]
    exact (stamped job before).imp_right (List.mem_append_left _)
  | comes _ _ info _ =>
    rw [Scheduler.stamp, info]
    exact .inl rfl
  | stops now _ info _ =>
    rw [Scheduler.stamp, info, evict_rrTime, now]
    exact .inr (List.mem_append_right _ (List.mem_singleton_self _))

/-- In every run, the stamps are -1 or times of its calls. -/
theorem stamped_of_run {scheme : Scheme} (lawful : queue.Lawful Ordered)
    (run : Run (Step queue) (start queue scheme) trace final) : Stamped queue trace final := by
  induction run with
  | start =>
    intro job member
    rw [(proper_of_run lawful .start).mem_jobs_iff] at member
    cases member.1
  | next earlier step ih => exact ih.step lawful (proper_of_run lawful earlier) step

/--
Under `RR`, in every run whose times are not negative and strictly increase: from the call that
evicts a job to the next call that returns it, no job is returned twice, and every job that was in
the queue when the job was evicted is returned exactly once.
-/
theorem round_robin (lawful : queue.Lawful Ordered)
    {earlier front : List (Transition (State Job Heap) (Event Job))}
    {first back : Transition (State Job Heap) (Event Job)} {next : Option Job}
    (run : Run (Step queue) (start queue .RR) (earlier ++ (front ++ [back])) final)
    (increasing : (times (earlier ++ (front ++ [back]))).Pairwise (· < ·))
    (nonneg : ∀ time ∈ times (earlier ++ (front ++ [back])), 0 ≤ time)
    (begins : (front ++ [back]).head? = some first)
    (evicts : first.action = .expire evicted time next)
    (away : ∀ taken ∈ front, taken.action.returned ≠ some evicted)
    (returned : back.action.returned = some evicted) :
    (∀ job, (returns front).count job ≤ 1) ∧
    ∀ job ∈ queue.contents first.before.scheduler.pqueue, (returns front).count job = 1 := by
  -- It suffices that no job is returned twice and all of the queue are.
  suffices turns : (returns front).Nodup ∧
      ∀ job ∈ queue.contents first.before.scheduler.pqueue, job ∈ returns front by
    refine ⟨List.nodup_iff_count_le_one.mp turns.1, fun job waits => ?_⟩
    exact List.count_eq_one_of_mem turns.1 (turns.2 job waits)
  obtain ⟨middle, past, window⟩ := run.split
  have proper := proper_of_run lawful past
  have scheme := scheme_of_run lawful past
  -- The stamps of the queue are those of earlier calls.
  obtain ⟨rest, whole⟩ : ∃ rest, front ++ [back] = first :: rest := by
    cases whole : front ++ [back] with
    | nil => simp at whole
    | cons taken rest =>
      rw [whole] at begins
      exact ⟨rest, by rw [Option.some.inj begins]⟩
  rw [whole] at window increasing nonneg
  obtain ⟨rfl, step, onward⟩ := window.uncons
  rw [evicts] at step
  have now : first.action.time = time := by rw [evicts]; rfl
  obtain ⟨before, after⟩ := times_before increasing
  rw [now] at before after
  have stamps : ∀ job ∈ queue.contents first.before.scheduler.pqueue,
      first.before.scheduler.stamp job < time := by
    intro job waits
    rcases stamped_of_run lawful past job (mem_together_iff.mpr (.inr waits)) with new | old
    · rw [new]
      exact neg_one_lt_zero.trans_le (nonneg time (by simp [times, now]))
    · exact before _ old
  obtain ⟨goes, comes⟩ := Awaiting.evict lawful proper scheme step stamps
  cases front with
  | nil =>
    -- The evicted job is returned at once, so the queue was empty.
    obtain ⟨rfl, rfl⟩ := List.cons.inj whole
    rw [evicts] at returned
    exact ⟨.nil, fun job waits => absurd waits (comes returned job)⟩
  | cons taken others =>
    obtain ⟨rfl, rfl⟩ := List.cons.inj whole
    have left : next ≠ some evicted := by
      intro stays
      exact away taken List.mem_cons_self (by rw [evicts]; exact stays)
    -- The run goes on to the call that returns the evicted job.
    obtain ⟨last, between, ending⟩ := onward.split
    obtain ⟨rfl, final_step, _⟩ := ending.uncons
    obtain ⟨proper, scheme, awaiting⟩ := (goes left).run lawful
      (proper.step lawful step) ((proper.scheme_step lawful step).trans scheme) between
      (fun later member => after later (List.mem_append_left _ member))
      fun later member => away later (List.mem_cons_of_mem _ member)
    have all : returns (taken :: others) = next.toList ++ returns others := by
      have mine : taken.action.returned = next := by rw [evicts]; rfl
      rw [returns, List.filterMap_cons, mine]
      cases next <;> rfl
    rw [all]
    have complete := (awaiting.step lawful proper scheme final_step (after back (by simp))).2
      returned
    exact ⟨awaiting.awaits.once, complete⟩

/-- Two jobs come, run in turn, and the first one is back after the second one. -/
theorem round_robin_pair : ∃ between : Transition (State Nat (List Nat)) (Event Nat),
    between.action.returned = some 2 ∧ (returns [between]).count 2 = 1 := by
  let origin : State Nat (List Nat) := start PriorityQueue.sortedList .RR
  let first := offeredTo origin 1 0 ⟨1, 10⟩
  let both := offeredTo first 2 1 ⟨1, 10⟩
  let alone := dispatchedTo both 2 1
  let turned := expiredTo alone 1 3
  let wrapped := expiredTo turned 2 4
  have one : Step PriorityQueue.sortedList origin (.newJob 1 1 0 ⟨1, 10⟩) first :=
    .newJob (by decide)
  have two : Step PriorityQueue.sortedList first (.newJob 2 2 1 ⟨1, 10⟩) both :=
    .newJob (by decide)
  have dispatch : Step PriorityQueue.sortedList both (.dispatch 2 (some 1)) alone :=
    .dispatch rfl rfl
  have evict : Step PriorityQueue.sortedList alone (.expire 1 3 (some 2)) turned :=
    .expire rfl rfl
  have back : Step PriorityQueue.sortedList turned (.expire 2 4 (some 1)) wrapped := .expire rfl rfl
  have run : Run (Step PriorityQueue.sortedList) origin
      ([⟨origin, .newJob 1 1 0 ⟨1, 10⟩, first⟩, ⟨first, .newJob 2 2 1 ⟨1, 10⟩, both⟩,
        ⟨both, .dispatch 2 (some 1), alone⟩] ++
        ([⟨alone, .expire 1 3 (some 2), turned⟩] ++ [⟨turned, .expire 2 4 (some 1), wrapped⟩])) wrapped :=
    ((((Run.start.next one).next two).next dispatch).next evict).next back
  have waits : 2 ∈ PriorityQueue.sortedList.contents alone.scheduler.pqueue :=
    Multiset.mem_coe.mpr (List.mem_singleton.mpr rfl)
  refine ⟨_, rfl, (round_robin PriorityQueue.lawful_sortedList run ?_ ?_ rfl rfl ?_ rfl).2 2 waits⟩
  · simp [times, Event.time]
    norm_num
  · simp [times, Event.time]
  · simp [Event.returned]

end SystemProgramming.Scheduling
