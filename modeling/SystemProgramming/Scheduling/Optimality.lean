import Mathlib.Algebra.BigOperators.Group.Multiset.Basic
import Mathlib.Algebra.Order.BigOperators.Group.Multiset
import Mathlib.Tactic.Linarith
import SystemProgramming.Foundations.Completions
import SystemProgramming.Scheduling.Averages

/-! Among all schedules of jobs that come together, `SJF` has the least average turnaround time. -/

namespace SystemProgramming.Scheduling

open Foundations

variable {Job Heap : Type*} {queue : PriorityQueue Job Heap}
  {Ordered : (Job → Job → Int) → Heap → Prop} {st after final : State Job Heap}
  {job other : Job} {time : ℚ} {event : Event Job} {scheme : Scheme} {need : Job → ℚ}
  {trace : List (Transition (State Job Heap) (Event Job))}

section Batches

/-- When the last call was made. -/
def latest (trace : List (Transition (State Job Heap) (Event Job))) : ℚ :=
  ((times trace).getLast?).getD 0

@[simp] theorem latest_concat (taken : Transition (State Job Heap) (Event Job)) :
    latest (trace ++ [taken]) = taken.action.time := by
  simp [latest, times]

/-- Jobs that come at time 0, with the running times that they need, and that are given them. -/
structure Batch (need : Job → ℚ) (trace : List (Transition (State Job Heap) (Event Job))) :
    Prop where
  chronological : (0 :: times trace).Pairwise (· ≤ ·)
  brings : ∀ taken ∈ trace, ∀ job jobNumber time schedData,
    taken.action = .newJob job jobNumber time schedData →
      time = 0 ∧ schedData.runningTime = need job
  exact : ∀ taken ∈ trace, ∀ job time, taken.action = .finish job time →
    taken.after.received job = need job

/-- All jobs come before one is asked for, and one that is returned begins at once. -/
structure Prompt (trace : List (Transition (State Job Heap) (Event Job))) : Prop where
  together : ∀ earlier taken later, trace = earlier ++ taken :: later →
    ∀ job jobNumber time schedData, taken.action = .newJob job jobNumber time schedData →
      ∀ before ∈ earlier, ¬ before.action.Asks
  busy : ∀ earlier taken later, trace = earlier ++ taken :: later → ∀ job time,
    taken.action = .dispatch time (some job) → time = latest earlier

/-- The calls of a batch, up to the last one, are those of a batch. -/
theorem Batch.init {taken : Transition (State Job Heap) (Event Job)}
    (batch : Batch need (trace ++ [taken])) : Batch need trace where
  chronological := by
    have whole := batch.chronological
    rw [times, List.map_append, ← List.cons_append] at whole
    exact (List.pairwise_append.mp whole).1
  brings earlier member := batch.brings earlier (List.mem_append_left _ member)
  exact earlier member := batch.exact earlier (List.mem_append_left _ member)

/-- Time does not run backwards. -/
theorem Batch.latest_le {taken : Transition (State Job Heap) (Event Job)}
    (batch : Batch need (trace ++ [taken])) : latest trace ≤ taken.action.time := by
  have whole := batch.chronological
  rw [times, List.map_append, ← List.cons_append] at whole
  have last := (List.pairwise_append.mp whole).2.2
  rw [latest]
  -- Where nothing was called before, the time is not before 0.
  cases seen : (times trace).getLast? with
  | none => exact last 0 (by simp) _ (by simp)
  | some time => exact last time (List.mem_cons_of_mem _ (List.mem_of_getLast? seen)) _ (by simp)

/-- So are the calls of prompt ones. -/
theorem Prompt.init {taken : Transition (State Job Heap) (Event Job)}
    (prompt : Prompt (trace ++ [taken])) : Prompt trace where
  together earlier before later split :=
    prompt.together earlier before (later ++ [taken]) (by rw [split]; simp)
  busy earlier before later split :=
    prompt.busy earlier before (later ++ [taken]) (by rw [split]; simp)

/-- Calls stay prompt if the next one is. -/
theorem Prompt.next {taken : Transition (State Job Heap) (Event Job)} (prompt : Prompt trace)
    (together : ∀ job jobNumber time schedData,
      taken.action = .newJob job jobNumber time schedData →
        ∀ before ∈ trace, ¬ before.action.Asks)
    (busy : ∀ job time, taken.action = .dispatch time (some job) → time = latest trace) :
    Prompt (trace ++ [taken]) := by
  -- A call of the longer trace is the last one, or one of the others.
  have last : ∀ {earlier later : List (Transition (State Job Heap) (Event Job))}
      {before : Transition (State Job Heap) (Event Job)},
      trace ++ [taken] = earlier ++ before :: later →
      (earlier = trace ∧ before = taken) ∨ ∃ rest, trace = earlier ++ before :: rest := by
    intro earlier later before split
    rcases List.eq_nil_or_concat later with rfl | ⟨rest, final, rfl⟩
    · obtain ⟨same, here⟩ := List.append_inj' split rfl
      exact .inl ⟨same.symm, (List.singleton_inj.mp here).symm⟩
    · rw [List.concat_eq_append, ← List.cons_append, ← List.append_assoc] at split
      exact .inr ⟨rest, (List.append_inj' split rfl).1⟩
  refine ⟨fun earlier before later split => ?_, fun earlier before later split => ?_⟩
  · rcases last split with ⟨rfl, rfl⟩ | ⟨rest, inside⟩
    · exact together
    · exact prompt.together earlier before rest inside
  · rcases last split with ⟨rfl, rfl⟩ | ⟨rest, inside⟩
    · exact busy
    · exact prompt.busy earlier before rest inside

/-- No calls are prompt. -/
theorem Prompt.nil : Prompt ([] : List (Transition (State Job Heap) (Event Job))) where
  together earlier taken later split := by simp at split
  busy earlier taken later split := by simp at split

variable [DecidableEq Job]

/-- What is stored of a job is what it needs. -/
theorem Recorded.need_of_batch (recorded : Recorded queue Ordered trace st)
    (batch : Batch need trace) (offered : job ∈ st.offered) :
    arrival trace job = 0 ∧ runningTime trace job = need job := by
  obtain ⟨⟨time, schedData⟩, seen⟩ := Option.isSome_iff_exists.mp ((recorded.brought job).mpr offered)
  obtain ⟨taken, member, brings⟩ := exists_of_firstSeen seen
  -- What was seen first of the job is the call that brought it.
  have came : ∃ jobNumber, taken.action = .newJob job jobNumber time schedData := by
    cases action : taken.action with
    | newJob new jobNumber _ _ =>
      rw [action, Event.brings] at brings
      split at brings
      · next same =>
        cases brings
        exact ⟨jobNumber, by rw [same]⟩
      · cases brings
    | dispatch _ _ | expire _ _ _ | finish _ _ =>
      rw [action] at brings
      cases brings
  obtain ⟨jobNumber, came⟩ := came
  obtain ⟨zero, needs⟩ := batch.brings taken member job jobNumber time schedData came
  simp only [arrival, runningTime, seen, Option.map_some, Option.getD_some]
  exact ⟨zero, needs⟩

end Batches

section Ends

variable [DecidableEq Job]

/-- When a job is finished, its end is seen. -/
theorem Recorded.ends_finish (recorded : Recorded queue Ordered trace st)
    (runs : st.running = some job) :
    ((st.finished ++ [job]).map (finishTime (trace ++ [⟨st, .finish job time, after⟩]))).sum =
      (st.finished.map (finishTime trace)).sum + time := by
  have waits := recorded.proper.mem_jobs_iff.mp (mem_together_iff.mpr (.inl runs))
  have none := Option.not_isSome_iff_eq_none.mp ((recorded.ended job).not.mpr waits.2)
  -- The ends of the other jobs do not change, and this one had none.
  have kept : st.finished.map (finishTime (trace ++ [⟨st, .finish job time, after⟩])) =
      st.finished.map (finishTime trace) :=
    List.map_congr_left fun _ finished => recorded.finishTime_append finished _
  have now : finishTime (trace ++ [⟨st, .finish job time, after⟩]) job = time := by
    rw [finishTime, firstSeen_append, none]
    simp [Event.ends]
  rw [List.map_append, kept, List.map_singleton, now, List.sum_append, List.sum_singleton]

/-- The ends that were seen stay the same. -/
theorem Recorded.ends_append (recorded : Recorded queue Ordered trace st)
    (taken : Transition (State Job Heap) (Event Job)) :
    (st.finished.map (finishTime (trace ++ [taken]))).sum =
      (st.finished.map (finishTime trace)).sum :=
  congrArg List.sum (List.map_congr_left fun _ finished =>
    recorded.finishTime_append finished _)

end Ends

section Anyhow

variable [DecidableEq Job]

/-- No more time was given to jobs than there was, one job at a time. -/
structure Spent (queue : PriorityQueue Job Heap) (need : Job → ℚ)
    (trace : List (Transition (State Job Heap) (Event Job))) (st : State Job Heap) : Prop where
  nonneg : ∀ job, 0 ≤ st.received job
  unseen : ∀ job, job ∉ st.offered → st.received job = 0
  since : ∀ job, st.running = some job → st.since ≤ latest trace
  given : (st.finished.map need).sum + ((st.jobs queue).map st.received).sum +
    st.running.elim 0 (fun _ => latest trace - st.since) ≤ latest trace
  ends : completions (st.finished.map need) ≤ (st.finished.map (finishTime trace)).sum

/-- What jobs have received, when one of them has run since some time. -/
theorem sum_stop {waiting : Multiset Job} (absent : job ∉ waiting) :
    (waiting.map (st.stop job time)).sum = (waiting.map st.received).sum := by
  refine congrArg Multiset.sum (Multiset.map_congr rfl fun other member => ?_)
  have apart : other ≠ job := fun same => absent (same ▸ member)
  exact Function.update_of_ne apart _ _

/-- A job that is stopped has received no less than before. -/
theorem Spent.stop_nonneg (spent : Spent queue need trace st) (runs : st.running = some job)
    (later : latest trace ≤ time) (other : Job) : 0 ≤ st.stop job time other := by
  simp only [State.stop, Function.update_apply]
  split
  · have begun := spent.since job runs
    have sofar := spent.nonneg job
    linarith
  · exact spent.nonneg other

/-- Every call keeps to the time that there is. -/
theorem Spent.next (lawful : queue.Lawful Ordered) (recorded : Recorded queue Ordered trace st)
    (spent : Spent queue need trace st) (step : Step queue st event after)
    (batch : Batch need (trace ++ [⟨st, event, after⟩])) :
    Spent queue need (trace ++ [⟨st, event, after⟩]) after := by
  have later : latest trace ≤ event.time := batch.latest_le
  have proper := recorded.proper
  have given := spent.given
  have unseen := proper.unseen_step step spent.unseen
  cases step with
  | @newJob job jobNumber time schedData fresh =>
    -- It has not run yet.
    have jobs : ({ st with
        scheduler := schedulerNewJob queue st.scheduler job jobNumber time schedData
        offered := st.offered ++ [job] } : State Job Heap).jobs queue = job ::ₘ st.jobs queue := by
      rw [State.jobs, contents_newJob lawful, together_cons]
      rfl
    refine ⟨spent.nonneg, unseen, fun other runs => ?_, ?_, ?_⟩
    · rw [latest_concat]
      exact (spent.since other runs).trans later
    · rw [jobs, latest_concat, Multiset.map_cons, Multiset.sum_cons]
      simp only [spent.unseen job fresh, zero_add]
      simp only [Event.time] at later ⊢
      cases running : st.running with
      | none =>
        rw [running] at given
        simp only [Option.elim_none] at given ⊢
        linarith
      | some _ =>
        rw [running] at given
        simp only [Option.elim_some] at given ⊢
        linarith
    · rw [recorded.ends_append]
      exact spent.ends
  | @dispatch time returned sched idle done =>
    have served := proper.served_idle lawful idle done
    -- What the queue returns has received as much as before, and begins now.
    refine ⟨spent.nonneg, unseen, fun _ _ => ?_, ?_, ?_⟩
    · rw [latest_concat]
      exact le_rfl
    · rw [latest_concat]
      have jobs := served.jobs
      rw [idle] at given
      simp only [State.jobs, Option.elim_none, Event.time] at given later jobs ⊢
      rw [jobs]
      cases returned with
      | none => simp only [Option.elim_none]; linarith
      | some _ => simp only [Option.elim_some, sub_self]; linarith
    · rw [recorded.ends_append]
      exact spent.ends
  | @expire job time returned sched runs done =>
    have served := proper.served_running lawful runs done
    have absent := proper.running_absent runs
    -- The time since the job began is what it receives.
    refine ⟨spent.stop_nonneg runs later, unseen, fun _ _ => ?_, ?_, ?_⟩
    · rw [latest_concat]
      exact le_rfl
    · rw [latest_concat]
      have jobs := served.jobs
      rw [jobs_of_running runs] at jobs given
      simp only [State.jobs] at jobs ⊢
      rw [jobs, Multiset.map_cons, Multiset.sum_cons, sum_stop absent]
      rw [runs, Multiset.map_cons, Multiset.sum_cons] at given
      simp only [State.stop, Function.update_self, Event.time, Option.elim_some] at given later ⊢
      cases returned with
      | none => simp only [Option.elim_none]; linarith
      | some _ => simp only [Option.elim_some, sub_self]; linarith
    · rw [recorded.ends_append]
      exact spent.ends
  | @finish job time sched runs done =>
    have absent := proper.running_absent runs
    have received : st.stop job time job = need job := 
      batch.exact _ (List.mem_append_right _ (List.mem_singleton_self _)) job time rfl
    obtain ⟨-, pqueue, -⟩ := finish_spec done
    rw [jobs_of_running runs, runs, Multiset.map_cons, Multiset.sum_cons] at given
    simp only [State.stop, Function.update_self, Option.elim_some] at received given
    -- The job has got what it needs, and nobody else has run meanwhile.
    have total : (st.finished.map need).sum + need job +
        ((queue.contents st.scheduler.pqueue).map st.received).sum ≤ time := by
      simp only [Event.time] at later
      linarith
    have others : 0 ≤ ((queue.contents st.scheduler.pqueue).map st.received).sum :=
      Multiset.sum_nonneg fun value member => by
        obtain ⟨other, -, rfl⟩ := Multiset.mem_map.mp member
        exact spent.nonneg other
    refine ⟨spent.stop_nonneg runs later, unseen, fun _ runs => (by cases runs), ?_, ?_⟩
    · simp only [State.jobs, together, Option.elim_none, pqueue, sum_stop absent, latest_concat,
        Event.time, List.map_append, List.sum_append, List.map_singleton, List.sum_singleton]
      linarith
    · -- It ends no earlier than all that is finished, itself included, can be done.
      rw [recorded.ends_finish runs, List.map_append, List.map_singleton, completions_concat]
      have := spent.ends
      linarith

end Anyhow

section Shortest

variable [DecidableEq Job]

/-- The jobs are done in the order of what they need, without a pause. -/
structure Tight (queue : PriorityQueue Job Heap) (need : Job → ℚ)
    (trace : List (Transition (State Job Heap) (Event Job))) (st : State Job Heap) : Prop where
  fresh : (∀ taken ∈ trace, ¬ taken.action.Asks) → st.running = none ∧ st.finished = []
  unseen : ∀ job, job ∉ st.offered → st.received job = 0
  unrun : ∀ job ∈ queue.contents st.scheduler.pqueue, st.received job = 0
  idle : st.running = none → st.jobs queue = 0 ∨ (st.finished.map need).sum = latest trace
  busy : ∀ job, st.running = some job → (st.finished.map need).sum + st.received job = st.since
  ends : (st.finished.map (finishTime trace)).sum = completions (st.finished.map need)
  sorted : (st.finished.map need).Pairwise (· ≤ ·)
  later : ∀ done ∈ st.finished, ∀ job ∈ st.jobs queue, need done ≤ need job
  first : ∀ job, st.running = some job → ∀ other ∈ st.jobs queue, need job ≤ need other

/-- What comes first under `SJF` needs no more time. -/
theorem need_le_of_comparer {info other : JobInfo} (first : Scheme.SJF.comparer info other ≤ 0) :
    info.runningTime ≤ other.runningTime := by
  rcases compareBy_nonpos_iff.mp first with less | ⟨same, -⟩
  · exact less.le
  · exact same.le

/-- Every call under `SJF` keeps to the order, where the calls are prompt. -/
theorem Tight.next (lawful : queue.Lawful Ordered) (recorded : Recorded queue Ordered trace st)
    (tight : Tight queue need trace st) (sjf : st.scheduler.scheme = .SJF)
    (step : Step queue st event after) (batch : Batch need (trace ++ [⟨st, event, after⟩]))
    (prompt : Prompt (trace ++ [⟨st, event, after⟩])) :
    Tight queue need (trace ++ [⟨st, event, after⟩]) after := by
  have later : latest trace ≤ event.time := batch.latest_le
  have proper := recorded.proper
  have unseen := proper.unseen_step step tight.unseen
  have asked : event.Asks → ¬ ∀ taken ∈ trace ++ [⟨st, event, after⟩], ¬ taken.action.Asks :=
    fun asks none => none ⟨st, event, after⟩ (by simp) asks
  have stays : ¬ st.scheduler.scheme.Preemptive := by
    rw [sjf]
    decide
  cases step with
  | @newJob job jobNumber time schedData absent =>
    -- Nothing was asked for, so nothing has run.
    have unasked : ∀ taken ∈ trace, ¬ taken.action.Asks :=
      prompt.together trace _ [] rfl job jobNumber time schedData rfl
    obtain ⟨idle, finished⟩ := tight.fresh unasked
    obtain ⟨zero, -⟩ := batch.brings _ (List.mem_append_right _ (List.mem_singleton_self _))
      job jobNumber time schedData rfl
    refine ⟨fun _ => ⟨idle, finished⟩, unseen, fun other member => ?_, fun _ => .inr ?_, ?_, ?_, ?_,
      ?_, ?_⟩
    · simp only [contents_newJob lawful, Multiset.mem_cons] at member
      rcases member with rfl | old
      · exact tight.unseen _ absent
      · exact tight.unrun other old
    · simp only [latest_concat, Event.time, finished, zero, List.map_nil, List.sum_nil]
    · simp [idle]
    · simp [finished, completions]
    · simp [finished]
    · simp [finished]
    · simp [idle]
  | @dispatch time returned sched idle done =>
    have served := proper.served_idle lawful idle done
    have jobs : ({ st with scheduler := sched, running := returned, since := time } :
        State Job Heap).jobs queue = st.jobs queue := served.jobs
    have contents : st.jobs queue = queue.contents st.scheduler.pqueue := jobs_of_idle idle
    -- Only what was waiting is returned, and the rest still waits.
    refine ⟨fun none => absurd none (asked trivial), unseen, fun other member => ?_, ?_, ?_, ?_,
      tight.sorted, ?_, ?_⟩
    · refine tight.unrun other ?_
      rw [← contents, ← jobs]
      exact mem_together_iff.mpr (.inr member)
    · rintro rfl
      rw [jobs]
      exact .inl (served.none_left rfl)
    · rintro job rfl
      -- It begins where the last one ended.
      have there : job ∈ st.jobs queue := jobs ▸ mem_together_iff.mpr (.inl rfl)
      have now : time = latest trace := prompt.busy trace _ [] rfl job time rfl
      have none_left : st.jobs queue ≠ 0 := fun empty => by
        rw [empty] at there
        exact absurd there (Multiset.notMem_zero _)
      have total := (tight.idle idle).resolve_left none_left
      rw [contents] at there
      rw [tight.unrun job there, add_zero, total, now]
    · rw [recorded.ends_append]
      exact tight.ends
    · rw [jobs]
      exact tight.later
    · rintro job rfl other member
      rw [jobs] at member
      have there : job ∈ st.jobs queue := jobs ▸ mem_together_iff.mpr (.inl rfl)
      -- No job that waits precedes the one that is returned.
      have least := served.least (.inl idle) job rfl other member
      rw [Scheduler.compare, served.scheme, sjf] at least
      have order := need_le_of_comparer least
      have same : ∀ job ∈ st.jobs queue, (sched.info job).runningTime = need job := by
        intro job member
        rw [info_congr (served.kept job (by simp [idle])), recorded.runningTimes job member]
        exact (recorded.need_of_batch batch.init (proper.mem_jobs_iff.mp member).1).2
      rwa [same job there, same other member] at order
  | @expire job time returned sched runs done =>
    have served := proper.served_running lawful runs done
    have absent := proper.running_absent runs
    -- The job goes on.
    obtain rfl : returned = some job := served.stays stays job runs
    have jobs : ({ st with
        scheduler := sched, running := some job, since := time, received := st.stop job time } :
        State Job Heap).jobs queue = st.jobs queue := served.jobs
    have contents : queue.contents sched.pqueue = queue.contents st.scheduler.pqueue := by
      have same := served.jobs
      rw [jobs_of_running runs] at same
      exact Multiset.cons_inj_right job |>.mp same
    refine ⟨fun none => absurd none (asked trivial), unseen, fun other member => ?_,
      fun none => (by cases none), ?_, ?_,
      tight.sorted, ?_, ?_⟩
    · simp only [contents] at member
      have apart : other ≠ job := fun same => absent (same ▸ member)
      exact (Function.update_of_ne apart _ _).trans (tight.unrun other member)
    · rintro other ⟨⟩
      have begun := tight.busy job runs
      simp only [State.stop, Function.update_self]
      linarith
    · rw [recorded.ends_append]
      exact tight.ends
    · rw [jobs]
      exact tight.later
    · rintro other ⟨⟩
      rw [jobs]
      exact tight.first job runs
  | @finish job time sched runs done =>
    have absent := proper.running_absent runs
    have received : st.stop job time job = need job :=
      batch.exact _ (List.mem_append_right _ (List.mem_singleton_self _)) job time rfl
    have begun := tight.busy job runs
    have there : job ∈ st.jobs queue := mem_together_iff.mpr (.inl runs)
    obtain ⟨-, pqueue, -⟩ := finish_spec done
    have left : ∀ other, other ∈ queue.contents sched.pqueue → other ∈ st.jobs queue := by
      intro other member
      rw [pqueue] at member
      exact mem_together_iff.mpr (.inr member)
    simp only [State.stop, Function.update_self] at received
    refine ⟨fun none => ?_, unseen, fun other member => ?_, fun _ => .inr ?_,
      fun _ runs => (by cases runs), ?_, ?_, ?_,
      fun _ runs => (by cases runs)⟩
    · -- What runs was asked for.
      have idle := (tight.fresh fun taken member => none taken (List.mem_append_left _ member)).1
      rw [runs] at idle
      cases idle
    · simp only [pqueue] at member
      have apart : other ≠ job := fun same => absent (same ▸ member)
      exact (Function.update_of_ne apart _ _).trans (tight.unrun other member)
    · simp only [latest_concat, Event.time, List.map_append, List.sum_append, List.map_singleton,
        List.sum_singleton]
      linarith
    · -- It ends when all that is finished, itself included, is done.
      rw [recorded.ends_finish runs, List.map_append, List.map_singleton, completions_concat,
        tight.ends]
      linarith
    · -- No job that is finished needs more than one that was still there.
      rw [List.map_append, List.pairwise_append]
      refine ⟨tight.sorted, by simp, fun value member last here => ?_⟩
      obtain ⟨done, finished, rfl⟩ := List.mem_map.mp member
      obtain rfl : last = need job := by simpa using here
      exact tight.later done finished job there
    · intro done member other waits
      have waits := left other (by simpa [State.jobs, together] using waits)
      rcases List.mem_append.mp member with old | new
      · exact tight.later done old other waits
      · rw [List.mem_singleton.mp new]
        exact tight.first job runs other waits

end Shortest

section Results

variable [DecidableEq Job]

/-- Every batch keeps to the time that there is. -/
theorem spent_of_run (lawful : queue.Lawful Ordered)
    (run : Run (Step queue) (start queue scheme) trace final) (batch : Batch need trace) :
    Spent queue need trace final := by
  induction run with
  | start =>
    -- At the start nothing waits, and no time is spent.
    have none : (start queue scheme : State Job Heap).jobs queue = 0 := lawful.contents_empty
    refine ⟨fun _ => le_rfl, fun _ _ => rfl, fun _ runs => (by cases runs), ?_, le_rfl⟩
    rw [none]
    simp [start, latest, times]
  | next earlier step ih =>
    exact (ih batch.init).next lawful (recorded_of_run lawful earlier) step batch

/-- Every prompt batch under `SJF` is done in the order of what is needed. -/
theorem tight_of_run (lawful : queue.Lawful Ordered)
    (run : Run (Step queue) (start queue .SJF) trace final) (batch : Batch need trace)
    (prompt : Prompt trace) : Tight queue need trace final := by
  induction run with
  | start =>
    -- At the start there is no job, so nothing is out of order.
    have none : (start queue .SJF : State Job Heap).jobs queue = 0 := lawful.contents_empty
    have empty : queue.contents (start queue .SJF : State Job Heap).scheduler.pqueue = 0 :=
      lawful.contents_empty
    refine ⟨fun _ => ⟨rfl, rfl⟩, fun _ _ => rfl, ?_, fun _ => .inl none,
      fun _ runs => (by cases runs), rfl, .nil,
      fun _ member => (by cases member),
      fun _ runs => (by cases runs)⟩
    rw [empty]
    exact fun _ member => absurd member (Multiset.notMem_zero _)
  | next earlier step ih =>
    exact (ih batch.init prompt.init).next lawful (recorded_of_run lawful earlier)
      (scheme_of_run lawful earlier) step batch prompt

/-- When all jobs of a batch are finished, the total turnaround time is the sum of their ends. -/
theorem Recorded.total_of_batch (recorded : Recorded queue Ordered trace st)
    (batch : Batch need trace) (complete : Complete st) :
    st.finished.Perm st.offered ∧
      st.scheduler.totalTurnaround = (st.finished.map (finishTime trace)).sum ∧
      st.scheduler.totalWaiting = st.scheduler.totalTurnaround - (st.offered.map need).sum := by
  have same : st.finished.Perm st.offered :=
    (List.perm_ext_iff_of_nodup recorded.finished_nodup recorded.offered_nodup).mpr fun job =>
      ⟨recorded.proper.offered job, complete job⟩
  obtain ⟨turnaround, waiting, -⟩ := recorded.sums complete
  have zero : truncate 0 = 0 := by decide
  -- All jobs came at 0, so that each turnaround is an end.
  have ends : st.scheduler.totalTurnaround = (st.offered.map (finishTime trace)).sum := by
    rw [turnaround]
    refine congrArg List.sum (List.map_congr_left fun job offered => ?_)
    rw [(recorded.need_of_batch batch offered).1, zero, Int.cast_zero, sub_zero]
  refine ⟨same, ends.trans (same.map _).sum_eq.symm, ?_⟩
  rw [ends, ← sum_map_sub, waiting]
  refine congrArg List.sum (List.map_congr_left fun job offered => ?_)
  obtain ⟨arrives, needs⟩ := recorded.need_of_batch batch offered
  rw [arrives, zero, Int.cast_zero, sub_zero, needs]

variable {Heap' : Type*} {queue' : PriorityQueue Job Heap'}
  {Ordered' : (Job → Job → Int) → Heap' → Prop} {final' : State Job Heap'}
  {trace' : List (Transition (State Job Heap') (Event Job))}

/--
Jobs that all come at time 0 and are given the running times that were told: where `SJF` is asked for
a job whenever none runs, its average turnaround time and its average waiting time are not larger than
those of any other run for the same jobs, under any scheme and with quanta and pauses of any lengths.
-/
theorem sjf_minimises (lawful : queue.Lawful Ordered) (lawful' : queue'.Lawful Ordered')
    (run : Run (Step queue) (start queue .SJF) trace final) (batch : Batch need trace)
    (prompt : Prompt trace) (complete : Complete final)
    (run' : Run (Step queue') (start queue' scheme) trace' final') (batch' : Batch need trace')
    (complete' : Complete final') (same : final.offered.Perm final'.offered) {average other : ℚ} :
    (schedulerAverageTurnaroundTime final.scheduler = some average →
      schedulerAverageTurnaroundTime final'.scheduler = some other → average ≤ other) ∧
    (schedulerAverageWaitingTime final.scheduler = some average →
      schedulerAverageWaitingTime final'.scheduler = some other → average ≤ other) := by
  have recorded := recorded_of_run lawful run
  have recorded' := recorded_of_run lawful' run'
  have tight := tight_of_run lawful run batch prompt
  have spent := spent_of_run lawful' run' batch'
  obtain ⟨all, total, waiting⟩ := recorded.total_of_batch batch complete
  obtain ⟨all', total', waiting'⟩ := recorded'.total_of_batch batch' complete'
  have counts : final.scheduler.count = final'.scheduler.count := by
    rw [recorded.count, recorded'.count, same.length_eq]
  have needs : (final.offered.map need).sum = (final'.offered.map need).sum := (same.map _).sum_eq
  -- The order of `SJF` is sorted, and no order is better.
  have turnaround : final.scheduler.totalTurnaround ≤ final'.scheduler.totalTurnaround := by
    rw [total, total', tight.ends]
    exact (completions_le_of_sorted ((all.trans (same.trans all'.symm)).map need)
      tight.sorted).trans spent.ends
  have waits : final.scheduler.totalWaiting ≤ final'.scheduler.totalWaiting := by
    rw [waiting, waiting', needs]
    exact sub_le_sub_right turnaround _
  -- Both averages have the same number of jobs below the line.
  have divide : ∀ {first second : ℚ}, first ≤ second →
      (if final.scheduler.count = 0 then none else some (first / final.scheduler.count)) =
        some average →
      (if final'.scheduler.count = 0 then none else some (second / final'.scheduler.count)) =
        some other → average ≤ other := by
    intro first second less one two
    rw [← counts] at two
    split at one
    · cases one
    · next some_jobs =>
      rw [if_neg some_jobs] at two
      obtain rfl := Option.some.inj one
      obtain rfl := Option.some.inj two
      exact div_le_div_of_nonneg_right less (Nat.cast_nonneg _)
  exact ⟨divide turnaround, divide waits⟩

end Results

section Samples

/-- Two jobs, of which the first one needs more time. -/
def needed (job : Nat) : ℚ := if job = 1 then 2 else 1

/-- The second job is the shorter one, and the first one has the better priority. -/
def bothOffered (scheme : Scheme) : State Nat (List Nat) :=
  offeredTo (offeredTo (start PriorityQueue.sortedList scheme) 1 0 ⟨1, 2⟩) 2 0 ⟨2, 1⟩

/-- One of the jobs is returned, and is finished when it has run. -/
def firstDone (scheme : Scheme) (first : Nat) : State Nat (List Nat) :=
  finishedTo (dispatchedTo (bothOffered scheme) 0 first) first (needed first)

/-- Then the other one. -/
def bothDone (scheme : Scheme) (first second : Nat) : State Nat (List Nat) :=
  finishedTo (dispatchedTo (firstDone scheme first) (needed first) second) second 3

/-- The calls for both jobs. -/
def oneByOne (scheme : Scheme) (first second : Nat) :
    List (Transition (State Nat (List Nat)) (Event Nat)) :=
  let empty := start PriorityQueue.sortedList scheme
  let once := offeredTo empty 1 0 ⟨1, 2⟩
  let runs := dispatchedTo (bothOffered scheme) 0 first
  let done := firstDone scheme first
  let again := dispatchedTo done (needed first) second
  [⟨empty, .newJob 1 1 0 ⟨1, 2⟩, once⟩, ⟨once, .newJob 2 2 0 ⟨2, 1⟩, bothOffered scheme⟩,
    ⟨bothOffered scheme, .dispatch 0 (some first), runs⟩,
    ⟨runs, .finish first (needed first), done⟩,
    ⟨done, .dispatch (needed first) (some second), again⟩,
    ⟨again, .finish second 3, bothDone scheme first second⟩]

/-- These calls are a run where the queue returns the jobs in this order. -/
theorem run_oneByOne {scheme : Scheme} {first second : Nat}
    (steps : Step PriorityQueue.sortedList (bothOffered scheme) (.dispatch 0 (some first))
        (dispatchedTo (bothOffered scheme) 0 first) ∧
      Step PriorityQueue.sortedList (dispatchedTo (bothOffered scheme) 0 first)
        (.finish first (needed first)) (firstDone scheme first) ∧
      Step PriorityQueue.sortedList (firstDone scheme first)
        (.dispatch (needed first) (some second))
        (dispatchedTo (firstDone scheme first) (needed first) second) ∧
      Step PriorityQueue.sortedList (dispatchedTo (firstDone scheme first) (needed first) second)
        (.finish second 3) (bothDone scheme first second)) :
    Run (Step PriorityQueue.sortedList) (start PriorityQueue.sortedList scheme)
      (oneByOne scheme first second) (bothDone scheme first second) := by
  have once : Step PriorityQueue.sortedList (start PriorityQueue.sortedList scheme)
      (.newJob 1 1 0 ⟨1, 2⟩) (offeredTo (start PriorityQueue.sortedList scheme) 1 0 ⟨1, 2⟩) :=
    .newJob (by simp [start])
  have both : Step PriorityQueue.sortedList
      (offeredTo (start PriorityQueue.sortedList scheme) 1 0 ⟨1, 2⟩) (.newJob 2 2 0 ⟨2, 1⟩)
      (bothOffered scheme) := .newJob (by simp [start, offeredTo])
  obtain ⟨runs, done, again, ends⟩ := steps
  exact (((((Run.start.next once).next both).next runs).next done).next again).next ends

/-- Both jobs come at time 0, and run as long as they need. -/
theorem batch_oneByOne {scheme : Scheme} {first second : Nat}
    (chronological : [0, 0, 0, 0, needed first, needed first, 3].Pairwise (· ≤ ·))
    (one : (firstDone scheme first).received first = needed first)
    (two : (bothDone scheme first second).received second = needed second) :
    Batch needed (oneByOne scheme first second) where
  chronological := chronological
  brings taken member job jobNumber time schedData came := by
    simp only [oneByOne, List.mem_cons, List.not_mem_nil, or_false] at member
    rcases member with rfl | rfl | rfl | rfl | rfl | rfl <;> cases came <;> exact ⟨rfl, rfl⟩
  exact taken member job time came := by
    simp only [oneByOne, List.mem_cons, List.not_mem_nil, or_false] at member
    rcases member with rfl | rfl | rfl | rfl | rfl | rfl <;> cases came
    · exact one
    · exact two

/-- No time passes between the end of the first job and the beginning of the second one. -/
theorem prompt_oneByOne {scheme : Scheme} {first second : Nat} :
    Prompt (oneByOne scheme first second) := by
  refine (((((Prompt.nil.next ?_ ?_).next ?_ ?_).next ?_ ?_).next ?_ ?_).next ?_ ?_).next ?_ ?_
  · exact fun _ _ _ _ _ _ member => by cases member
  · exact fun _ _ asks => by cases asks
  · simp [Event.Asks]
  · exact fun _ _ asks => by cases asks
  · exact fun _ _ _ _ added => by cases added
  · simp [latest, times, Event.time]
  · exact fun _ _ _ _ added => by cases added
  · exact fun _ _ asks => by cases asks
  · exact fun _ _ _ _ added => by cases added
  · simp [latest, times, Event.time]
  · exact fun _ _ _ _ added => by cases added
  · exact fun _ _ asks => by cases asks

/-- The shorter job first: the average turnaround time is 2, and 5/2 where the priorities count. -/
theorem sjf_minimises_pair :
    schedulerAverageTurnaroundTime (bothDone .SJF 2 1).scheduler = some 2 ∧
      schedulerAverageTurnaroundTime (bothDone .PRI 1 2).scheduler = some (5 / 2) ∧
      (2 : ℚ) ≤ 5 / 2 := by
  have shorter : schedulerAverageTurnaroundTime (bothDone .SJF 2 1).scheduler = some 2 := by
    decide +kernel
  have better : schedulerAverageTurnaroundTime (bothDone .PRI 1 2).scheduler = some (5 / 2) := by
    decide +kernel
  have run := @run_oneByOne .SJF 2 1 ⟨.dispatch rfl rfl, .finish rfl rfl, .dispatch rfl rfl,
    .finish rfl rfl⟩
  have run' := @run_oneByOne .PRI 1 2 ⟨.dispatch rfl rfl, .finish rfl rfl, .dispatch rfl rfl,
    .finish rfl rfl⟩
  have batch : Batch needed (oneByOne .SJF 2 1) :=
    batch_oneByOne (by decide +kernel) (by decide +kernel) (by decide +kernel)
  have batch' : Batch needed (oneByOne .PRI 1 2) :=
    batch_oneByOne (by decide +kernel) (by decide +kernel) (by decide +kernel)
  exact ⟨shorter, better, (sjf_minimises PriorityQueue.lawful_sortedList
    PriorityQueue.lawful_sortedList run batch prompt_oneByOne (by decide +kernel) run' batch'
    (by decide +kernel) (by decide +kernel)).1 shorter better⟩

end Samples

end SystemProgramming.Scheduling
