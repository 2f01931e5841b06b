import SystemProgramming.Barrier.Rounds
import SystemProgramming.Foundations.Potential
import Mathlib.Order.Bounds.Basic

/-! The barrier comes to rest: nobody waits for a thread that has come. -/

namespace SystemProgramming.Barriers

open Foundations

variable {Thread : Type*} [DecidableEq Thread] {st after final : State Thread}
  {action : Action Thread} {trace : List (Transition (State Thread) (Action Thread))}

/-- No thread can go on, unless a new call is made or a wait ends with no broadcast. -/
def AtRest (st : State Thread) : Prop :=
  ∀ action after, Step st action after → action.event = .call ∨ action.event = .spurious

/-- Where no thread can go on, each is outside or waits. -/
theorem AtRest.place (rest : AtRest st) (thread : Thread) :
    st.place thread = .outside ∨ st.place thread = .parked := by
  cases place : st.place thread with
  | outside => exact .inl rfl
  | parked => exact .inr rfl
  | woken => rcases rest _ _ (.wake place) with wrong | wrong <;> cases wrong
  | entering =>
    -- A thread that has called can lock the barrier.
    by_cases more : st.barrier.count + 1 < st.barrier.nThreads
    · rcases rest _ _ (.wait place more) with wrong | wrong <;> cases wrong
    · rcases rest _ _ (.release place more) with wrong | wrong <;> cases wrong

variable [Fintype Thread]

/-- A thread that is one call further adds one to the calls of all. -/
theorem total_further (calls : Thread → Nat) (thread : Thread) :
    total id (further calls thread) = total id calls + 1 := by
  have moved := total_update id calls thread (calls thread + 1)
  simp only [id_eq] at moved
  rw [further]
  omega

/-- The steps that led to a state, read off what is counted in it. -/
def State.steps (st : State Thread) : Nat :=
  total id st.called + total id st.entered + total id st.returned

/-- A step is counted once, and twice if it is the end of a round. -/
theorem Step.counted (step : Step st action after) :
    after.steps + st.barrier.timesUsed = st.steps + 1 + after.barrier.timesUsed := by
  cases step <;> simp only [State.steps, State.leave, total_further] <;> omega

/-- Every step of a run is counted, those that end a round once more. -/
theorem length_eq_steps {numThreads : Nat} (run : Run Step (start numThreads) trace final) :
    trace.length + final.barrier.timesUsed = final.steps := by
  -- A step adds one to what is counted, and the end of a round one more.
  refine @Run.history _ _ _ _ _ _ (fun trace st => trace.length + st.barrier.timesUsed = st.steps)
    run ?_ ?_
  · simp [start, State.steps, total, barrierInit]
  · intro trace before action after counted step
    have last := step.counted
    rw [List.length_append, List.length_singleton]
    omega

/-- A thread that fits in is counted in no call that it has not begun, and returned from no other. -/
theorem Fits.le_called {rounds called entered returned : Nat} {place : Place}
    (fits : Fits rounds place called entered returned) : entered ≤ called ∧ returned ≤ entered := by
  have begun := fits.begun
  have exit := fits.exit
  constructor
  · split at begun <;> omega
  · split at exit <;> omega

/-- A thread at rest has returned from all completed rounds, and waits if it has called for the next. -/
theorem Fits.at_rest {rounds called entered returned : Nat} {place : Place}
    (fits : Fits rounds place called entered returned) (rest : place = .outside ∨ place = .parked) :
    returned = rounds ∧ called = if place = .parked then rounds + 1 else rounds := by
  obtain ⟨entry, exit, begun⟩ := fits
  -- At either place the thread is in no round that others have left.
  rcases rest with rfl | rfl <;> simp at entry exit begun <;> simp <;> omega

/--
Threads that make finitely many calls come to rest, since no call takes more than three steps. Then
each thread has returned from as many calls as the slowest thread has made, and waits exactly if it
has made more.
-/
theorem barrier_comes_to_rest [Nonempty Thread]
    (run : Run Step (start (Fintype.card Thread)) trace final)
    (meets : ∀ taken ∈ trace, taken.action.event ≠ .spurious) :
    trace.length ≤ 3 * ∑ thread, final.called thread ∧
      (AtRest final → ∀ thread,
        IsLeast (Set.range final.called) (final.returned thread) ∧
        (final.place thread = .outside ∨ final.place thread = .parked) ∧
        (final.place thread = .parked ↔ final.returned thread < final.called thread)) := by
  have regular := regular_of_run run meets
  constructor
  · have counted := length_eq_steps run
    -- No thread has entered or returned more often than it has called.
    have entered : total id final.entered ≤ total id final.called :=
      Finset.sum_le_sum fun thread _ => (regular.fits thread).le_called.1
    have returned : total id final.returned ≤ total id final.entered :=
      Finset.sum_le_sum fun thread _ => (regular.fits thread).le_called.2
    have steps : final.steps = total id final.called + total id final.entered +
      total id final.returned := rfl
    show trace.length ≤ 3 * total id final.called
    omega
  · intro rest thread
    have fits := fun thread => (regular.fits thread).at_rest (rest.place thread)
    obtain ⟨returned, called⟩ := fits thread
    refine ⟨⟨?_, ?_⟩, rest.place thread, ?_⟩
    · -- Some thread is not counted in for the round that is not complete, so it has not called.
      obtain ⟨behind, late⟩ := regular.exists_behind
      refine ⟨behind, ?_⟩
      rw [returned, (fits behind).2, if_neg]
      intro parked
      have entry := (regular.fits behind).entry
      rw [if_pos parked] at entry
      omega
    · rintro _ ⟨other, rfl⟩
      rw [returned, (fits other).2]
      split <;> omega
    · rw [returned, called]
      split
      next parked => exact iff_of_true parked (Nat.lt_succ_self _)
      next free => exact iff_of_false free (Nat.lt_irrefl _)

/-- One of two threads has come to the barrier and waits. -/
def oneWaits : State Bool :=
  { start 2 with
    barrier := ⟨2, 1, 0⟩
    place := Function.update (Function.update (fun _ => .outside) true .entering) true .parked
    called := further (fun _ => 0) true
    entered := further (fun _ => 0) true }

/-- Nothing goes on until the other one comes. -/
theorem oneWaits_atRest : AtRest oneWaits := by
  intro action after step
  cases step with
  | call => exact .inl rfl
  | spurious => exact .inr rfl
  | @wait thread place | @release thread place | @wake thread place =>
    cases thread <;> cases place

/-- The one that waits has returned as often as the other one has called. -/
theorem barrier_comes_to_rest_sample : ∃ trace,
    Run Step (start (Fintype.card Bool)) trace oneWaits ∧
      trace.length ≤ 3 * ∑ thread, oneWaits.called thread ∧
      IsLeast (Set.range oneWaits.called) (oneWaits.returned true) := by
  let called : State Bool :=
    { start 2 with
      place := Function.update (fun _ => .outside) true .entering
      called := further (fun _ => 0) true }
  have call : Step (start 2) ⟨true, .call⟩ called := .call rfl
  have wait : Step called ⟨true, .wait⟩ oneWaits := .wait rfl (by decide)
  have run := (Run.start.next call).next wait
  obtain ⟨bounded, rest⟩ := barrier_comes_to_rest run (by simp)
  exact ⟨_, run, bounded, (rest oneWaits_atRest true).1⟩

end SystemProgramming.Barriers
