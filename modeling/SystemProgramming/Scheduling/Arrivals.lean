import SystemProgramming.Scheduling.Averages

/-! Under `FCFS` no job is overtaken by one that came in a later second. -/

namespace SystemProgramming.Scheduling

open Foundations

variable {Job Heap : Type*} [DecidableEq Job] {queue : PriorityQueue Job Heap}
  {Ordered : (Job → Job → Int) → Heap → Prop} {st after final : State Job Heap}
  {job late : Job} {event : Event Job}
  {trace : List (Transition (State Job Heap) (Event Job))}

/-- The second in which a job came, which is what the scheduler stores. -/
def arrived (trace : List (Transition (State Job Heap) (Event Job))) (job : Job) : Int :=
  truncate (arrival trace job)

/-- Later times are not in earlier seconds. -/
theorem truncate_mono {time later : ℚ} (nonneg : 0 ≤ time) (le : time ≤ later) :
    truncate time ≤ truncate later := by
  -- A time that is not negative is cut off downwards.
  have floor {value : ℚ} (nonneg : 0 ≤ value) : truncate value = ⌊value⌋ := by
    have fraction := sub_truncate nonneg
    rw [← Int.self_sub_floor] at fraction
    exact Int.cast_inj.mp (sub_right_injective fraction)
  rw [floor nonneg, floor (nonneg.trans le)]
  exact Int.floor_mono le

/-- What comes first under `FCFS` came in no later second. -/
theorem arrival_le_of_comparer {info other : JobInfo}
    (first : Scheme.FCFS.comparer info other ≤ 0) : info.arrival ≤ other.arrival := by
  have first : compareBy JobInfo.arrival (fun _ _ => 0) info other ≤ 0 := first
  rcases compareBy_nonpos_iff.mp first with less | ⟨same, -⟩
  · exact less.le
  · exact same.le

/-- When a job was first returned, those that came in earlier seconds were finished. -/
def Unovertaken (trace : List (Transition (State Job Heap) (Event Job))) (st : State Job Heap) :
    Prop :=
  ∀ late, (firstSeen (Event.returns late) trace).isSome → ∀ job ∈ st.offered,
    arrived trace job < arrived trace late →
      job ∈ st.finished ∧ finishTime trace job ≤ firstReturn trace late

/-- A job did not come before the first call. -/
theorem Recorded.arrival_nonneg (recorded : Recorded queue Ordered trace st)
    (offered : job ∈ st.offered) (nonneg : ∀ taken ∈ trace, 0 ≤ taken.action.time) :
    0 ≤ arrival trace job := by
  obtain ⟨⟨time, schedData⟩, seen⟩ :=
    Option.isSome_iff_exists.mp ((recorded.brought job).mpr offered)
  obtain ⟨taken, member, brings⟩ := exists_of_firstSeen seen
  rw [arrival, seen]
  exact time_of_brings brings ▸ nonneg taken member

/-- A job that is finished was so before now. -/
theorem Recorded.finishTime_le {now : ℚ} (recorded : Recorded queue Ordered trace st)
    (finished : job ∈ st.finished) (past : ∀ taken ∈ trace, taken.action.time ≤ now) :
    finishTime trace job ≤ now := by
  obtain ⟨time, seen⟩ := Option.isSome_iff_exists.mp ((recorded.ended job).mpr finished)
  obtain ⟨taken, member, ends⟩ := exists_of_firstSeen seen
  rw [finishTime, seen]
  refine le_trans (le_of_eq ?_) (past taken member)
  -- Only a call of `scheduler_job_finished` ends a job.
  cases action : taken.action with
  | finish done _ =>
    rw [action, Event.ends] at ends
    split at ends
    · exact (Option.some.inj ends).symm
    · cases ends
  | newJob _ _ _ _ | dispatch _ _ | expire _ _ _ =>
    rw [action] at ends
    cases ends

/-- A job that was returned before is not overtaken by those that have come until now. -/
theorem Unovertaken.keep (unovertaken : Unovertaken trace st)
    (recorded : Recorded queue Ordered trace st) (punctual : Punctual queue trace st)
    (taken : Transition (State Job Heap) (Event Job))
    (seen : (firstSeen (Event.returns late) trace).isSome) (member : job ∈ st.offered)
    (less : arrived (trace ++ [taken]) job < arrived (trace ++ [taken]) late) :
    job ∈ st.finished ∧
      finishTime (trace ++ [taken]) job ≤ firstReturn (trace ++ [taken]) late := by
  -- Neither when they came nor the first return is changed by a later call.
  have came := (punctual.returned late seen).1
  rw [arrived, arrived, (recorded.arrival_append member taken).1,
    (recorded.arrival_append came taken).1] at less
  obtain ⟨done, before⟩ := unovertaken late seen job member less
  refine ⟨done, ?_⟩
  rw [recorded.finishTime_append done taken, firstReturn, firstSeen_of_isSome seen]
  exact before

/-- A new job comes in no earlier second than the others. -/
theorem Recorded.arrived_le_new {time : ℚ} {jobNumber : Int} {schedData : SchedulerInfo}
    (recorded : Recorded queue Ordered trace st) (fresh : job ∉ st.offered)
    (offered : late ∈ st.offered) (nonneg : ∀ taken ∈ trace, 0 ≤ taken.action.time)
    (past : ∀ taken ∈ trace, taken.action.time ≤ time) :
    arrived (trace ++ [⟨st, .newJob job jobNumber time schedData, after⟩]) late ≤
      arrived (trace ++ [⟨st, .newJob job jobNumber time schedData, after⟩]) job := by
  rw [arrived, arrived, (recorded.arrival_append offered _).1]
  -- It comes at the time of this call, and no call was later.
  have now : arrival (trace ++ [⟨st, .newJob job jobNumber time schedData, after⟩]) job = time := by
    rw [arrival, recorded.brings_newJob fresh]
    rfl
  rw [now]
  exact truncate_mono (recorded.arrival_nonneg offered nonneg) (recorded.arrival_le offered past)

/-- A job that is taken from the queue leaves no job there that came in an earlier second. -/
theorem Recorded.finished_of_dispatch {time : ℚ} {sched : Scheduler Job Heap}
    (lawful : queue.Lawful Ordered) (recorded : Recorded queue Ordered trace st)
    (fcfs : st.scheduler.scheme = .FCFS) (idle : st.running = none)
    (done : schedulerQuantumExpired queue st.scheduler none time = some (some late, sched))
    (offered : job ∈ st.offered) (less : arrived trace job < arrived trace late) :
    job ∈ st.finished := by
  have served := recorded.proper.served_idle lawful idle done
  have there : late ∈ st.jobs queue := served.jobs ▸ mem_together_iff.mpr (.inl rfl)
  by_contra unfinished
  -- An unfinished job would be there, and the returned one is the first of them.
  have waits := recorded.proper.mem_jobs_iff.mpr ⟨offered, unfinished⟩
  have least := served.least (.inl idle) late rfl job waits
  rw [Scheduler.compare, served.scheme, fcfs] at least
  have order := arrival_le_of_comparer least
  -- The queue compares the seconds in which the jobs came.
  have same {other : Job} (member : other ∈ st.jobs queue) :
      (sched.info other).arrival = arrived trace other := by
    rw [info_congr (served.kept other (by simp [idle])), recorded.arrivals other member, arrived]
  rw [same there, same waits] at order
  omega

/-- Every call under `FCFS` keeps to the order. -/
theorem Unovertaken.next (lawful : queue.Lawful Ordered) (unovertaken : Unovertaken trace st)
    (recorded : Recorded queue Ordered trace st) (punctual : Punctual queue trace st)
    (fcfs : st.scheduler.scheme = .FCFS) (step : Step queue st event after)
    (nonneg : ∀ taken ∈ trace, 0 ≤ taken.action.time)
    (past : ∀ taken ∈ trace, taken.action.time ≤ event.time) :
    Unovertaken (trace ++ [⟨st, event, after⟩]) after := by
  intro late seen job member less
  have before (quiet : event.returns late = none) :
      (firstSeen (Event.returns late) trace).isSome := by
    rwa [firstSeen_of_quiet (by exact quiet)] at seen
  -- A job is returned for the first time only by `dispatch`.
  cases step with
  | @newJob new jobNumber time schedData fresh =>
    -- A new job is in no earlier second than one that was returned.
    have seen := before (by simp [Event.returns, Event.returned])
    rcases List.mem_append.mp member with old | new
    · exact unovertaken.keep recorded punctual _ seen old less
    · rw [List.mem_singleton.mp new] at less
      exact absurd less (not_lt.mpr
        (recorded.arrived_le_new fresh (punctual.returned late seen).1 nonneg past))
  | @dispatch time returned sched idle done =>
    by_cases old : (firstSeen (Event.returns late) trace).isSome
    · exact unovertaken.keep recorded punctual _ old member less
    · -- The job is returned for the first time.
      have now : returned = some late := by
        by_contra apart
        exact old (before (by simp [Event.returns, Event.returned, apart]))
      subst now
      have there := recorded.proper.served_idle lawful idle done
      have came : late ∈ st.offered := by
        have inside : late ∈ st.jobs queue := there.jobs ▸ mem_together_iff.mpr (.inl rfl)
        exact (recorded.proper.mem_jobs_iff.mp inside).1
      rw [arrived, arrived, (recorded.arrival_append member _).1,
        (recorded.arrival_append came _).1] at less
      have finished := recorded.finished_of_dispatch lawful fcfs idle done member less
      refine ⟨finished, ?_⟩
      rw [recorded.finishTime_append finished, firstReturn, firstSeen_append,
        Option.not_isSome_iff_eq_none.mp old]
      simpa [Event.returns, Event.returned, Event.time] using
        recorded.finishTime_le finished past
  | @expire evicted time returned sched runs done =>
    -- Under `FCFS` the job that is evicted goes on at once.
    have stays : returned = some evicted :=
      (recorded.proper.served_running lawful runs done).stays (by rw [fcfs]; decide) evicted runs
    subst stays
    have old : (firstSeen (Event.returns late) trace).isSome := by
      by_cases same : evicted = late
      · exact same ▸ recorded.returned evicted (.inl runs)
      · exact before (by simp [Event.returns, Event.returned, same])
    exact unovertaken.keep recorded punctual _ old member less
  | @finish done time sched runs ends =>
    have old := before (by simp [Event.returns, Event.returned])
    obtain ⟨finished, le⟩ := unovertaken.keep recorded punctual _ old member less
    exact ⟨List.mem_append_left _ finished, le⟩

end SystemProgramming.Scheduling
