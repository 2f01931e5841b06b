import Mathlib.Data.List.Count
import SystemProgramming.Foundations.Monitor

/-! The two-sided semaphore: its value stays between 0 and the maximum, and counts the calls. -/

namespace SystemProgramming.Semaphore

open Foundations

/-- A `Semamore`. -/
structure Semamore where
  value : Int
  maxVal : Int
  deriving DecidableEq, Repr

/-- `semm_init`. -/
def semmInit (value maxVal : Int) : Semamore where
  value := value
  maxVal := maxVal

/-- A call of `semm_wait` or `semm_post`. -/
inductive Call where
  | wait
  | post
  deriving DecidableEq, Repr

/-- The condition of the wait loop of a call. -/
def Call.Waits : Call → Semamore → Prop
  | wait, s => s.value = 0
  | post, s => s.value = s.maxVal

/-- What a call does between its wait loop and its broadcast. -/
def Call.apply : Call → Semamore → Semamore
  | wait, s => { s with value := s.value - 1 }
  | post, s => { s with value := s.value + 1 }

/-- `semm_wait` and `semm_post` with their lock, wait and broadcast. -/
def semamoreMonitor : Monitor Semamore Call Unit where
  Waits := Call.Waits
  Does call before _ after := after = call.apply before

/-- How often a call occurs. -/
def occurrences (call : Call) (history : List (Call × Unit)) : Int :=
  (history.map Prod.fst).count call

@[simp] theorem occurrences_append (call made : Call) (history : List (Call × Unit)) :
    occurrences call (history ++ [(made, ())]) =
      occurrences call history + if made = call then 1 else 0 := by
  -- The newest call counts if it is the one that is looked for.
  simp only [occurrences, List.map_append, List.map_cons, List.map_nil, List.count_append,
    List.count_singleton]
  split <;> simp_all

/-- The value is within its bounds, and is that of the start, plus the posts, minus the waits. -/
structure Counted (value maxVal : Int) (history : List (Call × Unit)) (s : Semamore) : Prop where
  maximum : s.maxVal = maxVal
  nonneg : 0 ≤ s.value
  bounded : s.value ≤ maxVal
  counts : s.value = value + occurrences .post history - occurrences .wait history

variable {value maxVal : Int} {history : List (Call × Unit)} {s : Semamore} {call : Call}

/-- A new semaphore whose value is within the bounds. -/
theorem Counted.init (nonneg : 0 ≤ value) (bounded : value ≤ maxVal) :
    Counted value maxVal [] (semmInit value maxVal) where
  maximum := rfl
  nonneg := nonneg
  bounded := bounded
  counts := by simp [semmInit, occurrences]

/-- A call that need not wait keeps the value within the bounds. -/
theorem Counted.apply (counted : Counted value maxVal history s) (ready : ¬ call.Waits s) :
    Counted value maxVal (history ++ [(call, ())]) (call.apply s) := by
  obtain ⟨maximum, nonneg, bounded, counts⟩ := counted
  -- A value that is not at its bound is a whole step away from it.
  cases call with
  | wait =>
    have positive : s.value ≠ 0 := ready
    refine ⟨maximum, ?_, ?_, ?_⟩
    · show 0 ≤ s.value - 1
      omega
    · show s.value - 1 ≤ maxVal
      omega
    · show s.value - 1 = _
      rw [counts]
      simp
      omega
  | post =>
    have below : s.value ≠ s.maxVal := ready
    refine ⟨maximum, ?_, ?_, ?_⟩
    · show 0 ≤ s.value + 1
      omega
    · show s.value + 1 ≤ maxVal
      omega
    · show s.value + 1 = _
      rw [counts]
      simp
      omega

variable {Thread : Type*} [DecidableEq Thread]
  {trace : List (Transition (Monitor.State Semamore Call Unit Thread)
    (Monitor.Action Call Unit Thread))} {final : Monitor.State Semamore Call Unit Thread}

/-- The value counts the calls that changed it. -/
theorem counted_of_run
    (run : Run semamoreMonitor.Step (Monitor.start (semmInit value maxVal)) trace final)
    (nonneg : 0 ≤ value) (bounded : value ≤ maxVal) :
    Counted value maxVal (Monitor.effects trace) final.shared := by
  refine Monitor.shared_invariant run (Counted.init nonneg bounded) ?_
  intro past before call result after counted ready does
  rw [does]
  exact counted.apply ready

/--
In every run, with any number of threads and spurious wakeups: the value stays within its bounds and
is that of the start plus the posts minus the waits that changed it; while the lock is free these
are the calls that have returned, and nobody waits in `semm_wait` for a positive value or in
`semm_post` for a value below the maximum.
-/
theorem two_sided (nonneg : 0 ≤ value) (bounded : value ≤ maxVal)
    (run : Run semamoreMonitor.Step (Monitor.start (semmInit value maxVal)) trace final) :
    (0 ≤ final.shared.value ∧ final.shared.value ≤ final.shared.maxVal) ∧
    final.shared.maxVal = maxVal ∧
    final.shared.value = value + occurrences .post (Monitor.effects trace) -
      occurrences .wait (Monitor.effects trace) ∧
    (final.holder = none →
      final.shared.value = value + occurrences .post (Monitor.returns trace) -
        occurrences .wait (Monitor.returns trace) ∧
      (∀ thread, final.stage thread = .parked .wait → ¬ 0 < final.shared.value) ∧
      ∀ thread, final.stage thread = .parked .post → ¬ final.shared.value < final.shared.maxVal) := by
  have counted := counted_of_run run nonneg bounded
  refine ⟨⟨counted.nonneg, counted.maximum ▸ counted.bounded⟩, counted.maximum, counted.counts, ?_⟩
  intro free
  -- A thread that waits finds the value at its bound.
  refine ⟨Monitor.effects_eq_returns run free ▸ counted.counts, ?_, ?_⟩
  · intro thread parked
    have zero : final.shared.value = 0 := Monitor.waits_of_run run free parked
    omega
  · intro thread parked
    have top : final.shared.value = final.shared.maxVal := Monitor.waits_of_run run free parked
    omega

/-- A single thread waits for a semaphore that starts at 0. -/
theorem waiter_run : ∃ trace, Run semamoreMonitor.Step
    (Monitor.start (semmInit 0 1) : Monitor.State _ _ _ Unit) trace
    ⟨semmInit 0 1, fun _ => .parked .wait, none⟩ := by
  let called : Monitor.State Semamore Call Unit Unit := ⟨semmInit 0 1, fun _ => .locking .wait, none⟩
  let locked : Monitor.State Semamore Call Unit Unit :=
    ⟨semmInit 0 1, fun _ => .testing .wait, some ()⟩
  have call : semamoreMonitor.Step (Monitor.start (semmInit 0 1)) ⟨(), .call .wait⟩ called :=
    .call rfl
  have lock : semamoreMonitor.Step called ⟨(), .lock⟩ locked := .lock rfl rfl
  have wait : semamoreMonitor.Step locked ⟨(), .wait⟩
      ⟨semmInit 0 1, fun _ => .parked .wait, none⟩ := .wait rfl rfl
  exact ⟨_, ((Run.start.next call).next lock).next wait⟩

/-- The value is then 0. -/
theorem two_sided_waiter : ¬ 0 < (semmInit 0 1).value := by
  obtain ⟨trace, run⟩ := waiter_run
  exact (two_sided (by decide) (by decide) run).2.2.2 rfl |>.2.1 () rfl

end SystemProgramming.Semaphore
