import SystemProgramming.Foundations.Monitor
import SystemProgramming.Foundations.Potential
import Mathlib.Algebra.BigOperators.Group.Finset.Piecewise

/-!
Monitors that are left to themselves: how long their threads can go on without new calls, and which
calls are stuck when they cannot.
-/

namespace Foundations

namespace Monitor

open Finset

variable {Shared Call Result Thread : Type*}

/-- The call of a thread that has not had its effect is of a kind. -/
def Stage.asks (kind : Call → Bool) : Stage Call Result → Nat
  | locking call | testing call | parked call => if kind call then 1 else 0
  | outside | changed _ _ | leaving _ _ => 0

/-- The thread waits in a call of a kind. -/
def Stage.parks (kind : Call → Bool) : Stage Call Result → Bool
  | parked call => kind call
  | outside | locking _ | testing _ | changed _ _ | leaving _ _ => false

/-- How many threads wait in a call of a kind. -/
def State.waiting [Fintype Thread] (kind : Call → Bool)
    (st : State Shared Call Result Thread) : Nat :=
  (univ.filter fun thread => (st.stage thread).parks kind = true).card

/-- The call that a step begins. -/
def Event.called : Event Call Result → List Call
  | .call made => [made]
  | _ => []

/-- The calls that were begun in a run. -/
def calls (trace : List (Transition (State Shared Call Result Thread)
    (Action Call Result Thread))) : List Call :=
  trace.flatMap fun taken => taken.action.event.called

/-- A new call. -/
def Event.isCall : Event Call Result → Bool
  | .call _ => true
  | _ => false

/-- A wakeup that nobody asked for. -/
def Event.isSpurious : Event Call Result → Bool
  | .spurious => true
  | _ => false

/-- How many steps a thread can still take for its call, and for the threads it will wake. -/
def Stage.weight (threads : Nat) : Stage Call Result → Nat
  | outside => 0
  | leaving _ _ => 1
  | changed _ _ => 2 * threads + 2
  | parked _ => 2 * threads + 2
  | testing _ => 2 * threads + 3
  | locking _ => 2 * threads + 4

@[simp] theorem Stage.asks_woken (kind : Call → Bool) (stage : Stage Call Result) :
    stage.woken.asks kind = stage.asks kind := by
  cases stage <;> rfl

/-- A thread that is woken can look at its condition again. -/
theorem Stage.weight_woken (threads : Nat) (stage : Stage Call Result) :
    stage.woken.weight threads ≤ stage.weight threads + 2 := by
  cases stage <;> simp [woken, weight]

/-- The calls that were begun, counted by the steps that began them. -/
theorem length_calls (trace : List (Transition (State Shared Call Result Thread)
    (Action Call Result Thread))) :
    (calls trace).length = trace.countP fun taken => taken.action.event.isCall := by
  induction trace with
  | nil => rfl
  | cons taken trace ih =>
    rw [calls, List.flatMap_cons, List.length_append, List.countP_cons, ← ih, Nat.add_comm]
    cases taken.action.event <;> rfl

variable [DecidableEq Thread] {monitor : Monitor Shared Call Result}
  {st after final : State Shared Call Result Thread} {action : Action Call Result Thread}
  {shared : Shared} {trace : List (Transition (State Shared Call Result Thread)
    (Action Call Result Thread))}

/-- Nobody can go on, unless a new call is made or somebody is woken for no reason. -/
def Stuck (monitor : Monitor Shared Call Result) (st : State Shared Call Result Thread) : Prop :=
  ∀ action after, monitor.Step st action after →
    action.event.isCall = true ∨ action.event.isSpurious = true

/-- A call that need not wait can always be carried out. -/
def Serves (monitor : Monitor Shared Call Result) (shared : Shared) : Prop :=
  ∀ call, ¬ monitor.Waits call shared → ∃ result after, monitor.Does call shared result after

/-- Where nobody can go on, the lock is free, and every thread is in no call or waits. -/
theorem Stuck.free (stuck : monitor.Stuck st) (held : Held st) (serves : monitor.Serves st.shared) :
    st.holder = none ∧
      ∀ thread, st.stage thread = .outside ∨ ∃ call, st.stage thread = .parked call := by
  -- Whoever has the lock has a step to take.
  have free : st.holder = none := by
    cases lock : st.holder with
    | none => rfl
    | some owner =>
      have holds := (held owner).mpr lock
      cases stage : st.stage owner with
      | outside | locking call | parked call => rw [stage] at holds; exact holds.elim
      | testing call =>
        by_cases waits : monitor.Waits call st.shared
        · rcases stuck _ _ (.wait stage waits) with wrong | wrong <;> cases wrong
        · obtain ⟨result, next, does⟩ := serves call waits
          rcases stuck _ _ (.act stage waits does) with wrong | wrong <;> cases wrong
      | changed call result =>
        rcases stuck _ _ (.broadcast stage) with wrong | wrong <;> cases wrong
      | leaving call result =>
        rcases stuck _ _ (.unlock stage) with wrong | wrong <;> cases wrong
  refine ⟨free, fun thread => ?_⟩
  -- Nobody is at a stage that needs the lock.
  have holds := (held thread).mp
  rw [free] at holds
  cases stage : st.stage thread with
  | outside => exact .inl rfl
  | parked call => exact .inr ⟨call, rfl⟩
  | locking call =>
    -- A thread before the free lock can get it.
    rcases stuck _ _ (.lock stage free) with wrong | wrong <;> cases wrong
  | testing call | changed call result | leaving call result =>
    rw [stage] at holds
    exact absurd (holds trivial) (by simp)

variable [Fintype Thread]

/-- A step changes what is asked for by the call that it begins and the effect that it has. -/
theorem Step.asks (step : monitor.Step st action after) (kind : Call → Bool) :
    total (Stage.asks kind) after.stage +
        (action.event.effect.countP fun effect => kind effect.1) =
      total (Stage.asks kind) st.stage + action.event.called.countP kind := by
  cases step with
  | @call thread call stage =>
    -- A call is asked for from its beginning until it takes effect.
    have moved := total_update (Stage.asks kind) st.stage thread (.locking call)
    rw [stage] at moved
    simp only [Stage.asks] at moved
    simp only [State.goto, Event.effect, Event.called, List.countP_nil, List.countP_singleton]
    omega
  | @act thread call result shared stage _ _ =>
    have moved := total_update (Stage.asks kind) st.stage thread (.changed call result)
    rw [stage] at moved
    simp only [Stage.asks] at moved
    simp only [State.goto, Event.effect, Event.called, List.countP_nil, List.countP_singleton]
    omega
  | @lock thread call stage _ =>
    have moved := total_update (Stage.asks kind) st.stage thread (.testing call)
    rw [stage] at moved
    exact Nat.add_right_cancel moved
  | @wait thread call stage _ =>
    have moved := total_update (Stage.asks kind) st.stage thread (.parked call)
    rw [stage] at moved
    exact Nat.add_right_cancel moved
  | @spurious thread call stage =>
    have moved := total_update (Stage.asks kind) st.stage thread (.locking call)
    rw [stage] at moved
    exact Nat.add_right_cancel moved
  | @unlock thread call result stage =>
    have moved := total_update (Stage.asks kind) st.stage thread .outside
    rw [stage] at moved
    exact moved
  | @broadcast thread call result stage =>
    -- Those who are woken still ask for what they asked for.
    have woken : total (Stage.asks kind) (fun other => (st.stage other).woken) =
        total (Stage.asks kind) st.stage := by
      simp only [total, Stage.asks_woken]
    have moved := total_update (Stage.asks kind) (fun other => (st.stage other).woken) thread
      (.leaving call result)
    rw [woken, stage] at moved
    exact moved

/-- The calls of a kind that were begun are those that had their effect and those still asked for. -/
theorem calls_eq (run : Run monitor.Step (start shared) trace final) (kind : Call → Bool) :
    (calls trace).countP kind = ((effects trace).countP fun effect => kind effect.1) +
      total (Stage.asks kind) final.stage := by
  induction run with
  | start => simp [calls, effects, total, start, Stage.asks]
  | next _ step ih =>
    -- What is counted so far grows by what the last step does.
    have last := step.asks kind
    rw [calls, effects, List.flatMap_append, List.flatMap_append, List.countP_append,
      List.countP_append, List.flatMap_singleton, List.flatMap_singleton]
    rw [calls, effects] at ih
    dsimp only
    omega

omit [DecidableEq Thread] in
/-- Where every thread is in no call or waits, what is asked for is what threads wait for. -/
theorem total_asks (idle : ∀ thread, st.stage thread = .outside ∨
      ∃ call, st.stage thread = .parked call) (kind : Call → Bool) :
    total (Stage.asks kind) st.stage = st.waiting kind := by
  rw [State.waiting, card_filter, total]
  -- A thread counts once if it waits in a call of the kind, and else not.
  refine sum_congr rfl fun thread _ => ?_
  rcases idle thread with stage | ⟨call, stage⟩
  · rw [stage]
    rfl
  · rw [stage]
    rfl

/-- Every step takes from the weight of the threads, but for new calls and spurious wakeups. -/
theorem Step.weight_falls (step : monitor.Step st action after) :
    total (Stage.weight (Fintype.card Thread)) after.stage + 1 ≤
      total (Stage.weight (Fintype.card Thread)) st.stage +
        ((if action.event.isCall then 2 * Fintype.card Thread + 5 else 0) +
          if action.event.isSpurious then 3 else 0) := by
  cases step with
  | call stage | spurious stage =>
    -- The call pays for its own steps, and for those that its broadcast gives to others.
    refine total_update_le ?_
    simp only [stage, Stage.weight, Event.isCall, Event.isSpurious, if_true, Bool.false_eq_true,
      if_false]
    omega
  | act stage | lock stage | wait stage | unlock stage =>
    -- The stages of a call come in the order of their weights.
    refine total_update_le ?_
    simp [stage, Stage.weight, Event.isCall, Event.isSpurious]
  | @broadcast thread call result stage =>
    -- The others are woken, which costs two steps for each, and this thread is almost done.
    have woken := @total_le Thread _ _ (Stage.weight (Fintype.card Thread)) st.stage
      (fun other => (st.stage other).woken) 2 fun other => Stage.weight_woken _ _
    have moved := total_update (Stage.weight (Fintype.card Thread))
      (fun other => (st.stage other).woken) thread (.leaving call result)
    have still : (st.stage thread).woken = .changed call result := by rw [stage]; rfl
    rw [still] at moved
    simp only [Stage.weight] at moved woken
    simp only [Event.isCall, Event.isSpurious, Bool.false_eq_true, if_false]
    omega

/--
A run is bounded by the calls that are made in it and the wakeups that nobody asked for: the threads
cannot go on forever.
-/
theorem length_le_of_calls (run : Run monitor.Step (start shared) trace final) :
    trace.length ≤ (2 * Fintype.card Thread + 5) * (calls trace).length +
      3 * trace.countP fun taken => taken.action.event.isSpurious := by
  have paid := run.length_le_paid fun _ _ _ step => step.weight_falls
  -- At the start nobody has anything to do.
  have nothing : total (Stage.weight (Fintype.card Thread))
      (start shared : State Shared Call Result Thread).stage = 0 := by
    simp [total, start, Stage.weight]
  rw [List.sum_map_add, sum_price _ _ trace, sum_price _ _ trace, nothing] at paid
  rw [length_calls]
  omega

/--
Where nobody can go on, exactly those calls of a kind wait that were begun and did not have their
effect, and each of them has to wait.
-/
theorem Stuck.calls_eq (run : Run monitor.Step (start shared) trace final)
    (stuck : monitor.Stuck final) (serves : monitor.Serves final.shared) (kind : Call → Bool) :
    (calls trace).countP kind =
      ((effects trace).countP fun effect => kind effect.1) + final.waiting kind := by
  rw [Monitor.calls_eq run kind, total_asks (stuck.free (held_of_run run) serves).2]

/-- A call of a kind in which a thread waits where nobody can go on. -/
theorem Stuck.waits (run : Run monitor.Step (start shared) trace final)
    (stuck : monitor.Stuck final) (serves : monitor.Serves final.shared) {kind : Call → Bool}
    (some : 0 < final.waiting kind) : ∃ call, kind call = true ∧ monitor.Waits call final.shared := by
  obtain ⟨thread, member⟩ := card_pos.mp some
  have parks := (mem_filter.mp member).2
  -- With the lock free, whoever waits has found its condition false.
  obtain ⟨free, -⟩ := stuck.free (held_of_run run) serves
  cases stage : final.stage thread with
  | parked call =>
    rw [stage] at parks
    exact ⟨call, parks, waits_of_run run free stage⟩
  | outside | locking call | testing call | changed call result | leaving call result =>
    rw [stage] at parks
    cases parks

end Monitor

end Foundations
