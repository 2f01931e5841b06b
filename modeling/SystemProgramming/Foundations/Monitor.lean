import Mathlib.Logic.Function.Basic
import SystemProgramming.Foundations.Runs

/-!
Monitors: shared data under one lock, and one condition on which all calls wait until they can go on
and which every call that went on signals to all; in small steps, and in steps from lock to unlock.
-/

namespace Foundations

/-- When a call waits, and what it does once it need not. -/
structure Monitor (Shared Call Result : Type*) where
  Waits : Call → Shared → Prop
  Does : Call → Shared → Result → Shared → Prop

namespace Monitor

/-- Where a thread is. -/
inductive Stage (Call Result : Type*) where
  /-- In no call. -/
  | outside
  /-- About to get the lock, for the first time or after a wait. -/
  | locking (call : Call)
  /-- Has the lock, and looks at the loop condition. -/
  | testing (call : Call)
  /-- In the wait, not woken; it has given the lock back. -/
  | parked (call : Call)
  /-- Has the lock and has changed the data, but has not yet woken the others. -/
  | changed (call : Call) (result : Result)
  /-- Has the lock and has woken the others. -/
  | leaving (call : Call) (result : Result)
  deriving DecidableEq, Repr

variable {Shared Call Result Thread : Type*}

/-- A broadcast, or a spurious wakeup, brings a waiting thread back to its loop condition. -/
def Stage.woken : Stage Call Result → Stage Call Result
  | parked call => locking call
  | stage => stage

/-- The thread has the lock. -/
def Stage.Holds : Stage Call Result → Prop
  | testing _ | changed _ _ | leaving _ _ => True
  | outside | locking _ | parked _ => False

/-- The call whose effect is done and that has not returned. -/
def Stage.pending : Stage Call Result → List (Call × Result)
  | changed call result | leaving call result => [(call, result)]
  | outside | locking _ | testing _ | parked _ => []

/-- The data, the threads, and the thread that has the lock. -/
structure State (Shared Call Result Thread : Type*) where
  shared : Shared
  stage : Thread → Stage Call Result
  holder : Option Thread

/-- No thread is in a call. -/
def start (shared : Shared) : State Shared Call Result Thread where
  shared := shared
  stage _ := .outside
  holder := none

/-- What a thread does in one step. -/
inductive Event (Call Result : Type*) where
  | call (call : Call)
  | lock
  | wait
  | act (call : Call) (result : Result)
  | broadcast
  | unlock (call : Call) (result : Result)
  | spurious
  deriving DecidableEq, Repr

/-- A step of one thread. -/
structure Action (Call Result Thread : Type*) where
  thread : Thread
  event : Event Call Result
  deriving DecidableEq, Repr

section Steps

variable [DecidableEq Thread]

/-- One thread moves on. -/
def State.goto (st : State Shared Call Result Thread) (thread : Thread)
    (stage : Stage Call Result) : State Shared Call Result Thread :=
  { st with stage := Function.update st.stage thread stage }

/-- The steps of the threads. -/
inductive Step (monitor : Monitor Shared Call Result) : State Shared Call Result Thread →
    Action Call Result Thread → State Shared Call Result Thread → Prop
  | call {st : State Shared Call Result Thread} {thread : Thread} {call : Call} :
      st.stage thread = .outside →
      Step monitor st ⟨thread, .call call⟩ (st.goto thread (.locking call))
  | lock {st : State Shared Call Result Thread} {thread : Thread} {call : Call} :
      st.stage thread = .locking call → st.holder = none →
      Step monitor st ⟨thread, .lock⟩ { st.goto thread (.testing call) with holder := some thread }
  | wait {st : State Shared Call Result Thread} {thread : Thread} {call : Call} :
      st.stage thread = .testing call → monitor.Waits call st.shared →
      -- To wait and to give the lock back is one step.
      Step monitor st ⟨thread, .wait⟩ { st.goto thread (.parked call) with holder := none }
  | act {st : State Shared Call Result Thread} {thread : Thread} {call : Call} {result : Result}
      {shared : Shared} :
      st.stage thread = .testing call → ¬ monitor.Waits call st.shared →
      monitor.Does call st.shared result shared →
      Step monitor st ⟨thread, .act call result⟩
        { st.goto thread (.changed call result) with shared := shared }
  | broadcast {st : State Shared Call Result Thread} {thread : Thread} {call : Call}
      {result : Result} :
      st.stage thread = .changed call result →
      Step monitor st ⟨thread, .broadcast⟩
        { st with
          stage := Function.update (fun other => (st.stage other).woken) thread
            (.leaving call result) }
  | unlock {st : State Shared Call Result Thread} {thread : Thread} {call : Call}
      {result : Result} :
      st.stage thread = .leaving call result →
      Step monitor st ⟨thread, .unlock call result⟩ { st.goto thread .outside with holder := none }
  | spurious {st : State Shared Call Result Thread} {thread : Thread} {call : Call} :
      st.stage thread = .parked call →
      Step monitor st ⟨thread, .spurious⟩ (st.goto thread (.locking call))

end Steps

/-- Where a thread is between two stretches under the lock. -/
inductive Place (Call : Type*) where
  | outside
  | locking (call : Call)
  | parked (call : Call)
  deriving DecidableEq, Repr

/-- A waiting thread that is woken. -/
def Place.woken : Place Call → Place Call
  | parked call => locking call
  | place => place

/-- The data and the threads, seen between two stretches under the lock. -/
structure Outline (Shared Call Thread : Type*) where
  shared : Shared
  place : Thread → Place Call

/-- What a thread does from where it gets the lock to where it gives it back, or without it. -/
inductive Stretch (Call Result : Type*) where
  | call (call : Call)
  | wait
  | act (call : Call) (result : Result)
  | spurious
  deriving DecidableEq, Repr

/-- A stretch of one thread. -/
structure Move (Call Result Thread : Type*) where
  thread : Thread
  stretch : Stretch Call Result
  deriving DecidableEq, Repr

/-- The steps of the threads, each stretch under the lock taken as one step. -/
inductive Atomic [DecidableEq Thread] (monitor : Monitor Shared Call Result) :
    Outline Shared Call Thread → Move Call Result Thread → Outline Shared Call Thread → Prop
  | call {st : Outline Shared Call Thread} {thread : Thread} {call : Call} :
      st.place thread = .outside →
      Atomic monitor st ⟨thread, .call call⟩
        { st with place := Function.update st.place thread (.locking call) }
  | wait {st : Outline Shared Call Thread} {thread : Thread} {call : Call} :
      st.place thread = .locking call → monitor.Waits call st.shared →
      Atomic monitor st ⟨thread, .wait⟩
        { st with place := Function.update st.place thread (.parked call) }
  | act {st : Outline Shared Call Thread} {thread : Thread} {call : Call} {result : Result}
      {shared : Shared} :
      st.place thread = .locking call → ¬ monitor.Waits call st.shared →
      monitor.Does call st.shared result shared →
      Atomic monitor st ⟨thread, .act call result⟩
        { shared := shared
          place := Function.update (fun other => (st.place other).woken) thread .outside }
  | spurious {st : Outline Shared Call Thread} {thread : Thread} {call : Call} :
      st.place thread = .parked call →
      Atomic monitor st ⟨thread, .spurious⟩
        { st with place := Function.update st.place thread (.locking call) }

/-- Where the thread with the lock is. -/
def State.inside (st : State Shared Call Result Thread) : Option (Stage Call Result) :=
  st.holder.map st.stage

/-- Whether the thread with the lock has changed the data and not yet woken the others. -/
def State.waking (st : State Shared Call Result Thread) : Bool :=
  match st.inside with
  | some (.changed _ _) => true
  | _ => false

/-- The place of a thread: a thread that is about to be woken counts as woken. -/
def Stage.place (waking : Bool) : Stage Call Result → Place Call
  | outside | changed _ _ | leaving _ _ => .outside
  | locking call | testing call => .locking call
  | parked call => if waking then .locking call else .parked call

/-- The outline of a state. -/
def State.outline (st : State Shared Call Result Thread) : Outline Shared Call Thread where
  shared := st.shared
  place thread := (st.stage thread).place st.waking

section Facts

@[simp] theorem Stage.holds_woken (stage : Stage Call Result) :
    stage.woken.Holds ↔ stage.Holds := by
  -- A thread that waits has no lock, before and after it is woken.
  cases stage <;> rfl

@[simp] theorem Stage.pending_woken (stage : Stage Call Result) :
    stage.woken.pending = stage.pending := by
  cases stage <;> rfl

/-- Once the others are woken, they are where the outline already saw them. -/
@[simp] theorem Stage.place_woken (stage : Stage Call Result) (waking : Bool) :
    stage.woken.place waking = stage.place true := by
  cases stage <;> rfl

/-- In the outline, the change of the data wakes the others. -/
theorem Stage.place_true (stage : Stage Call Result) :
    stage.place true = (stage.place false).woken := by
  cases stage <;> rfl

/-- A thread has the lock exactly if the lock says so. -/
def Held (st : State Shared Call Result Thread) : Prop :=
  ∀ thread, (st.stage thread).Holds ↔ st.holder = some thread

/-- A thread at a place where it has the lock is the one that the lock names. -/
theorem Held.inside {st : State Shared Call Result Thread} (held : Held st) (thread : Thread)
    (holds : (st.stage thread).Holds) :
    st.holder = some thread ∧ st.inside = some (st.stage thread) := by
  have mine := (held thread).mp holds
  exact ⟨mine, by rw [State.inside, mine]; rfl⟩

/-- At the start, nobody has the lock. -/
theorem held_start : Held (start shared : State Shared Call Result Thread) := by
  intro thread
  simp [start, Stage.Holds]

variable [DecidableEq Thread] {monitor : Monitor Shared Call Result}
  {st after final : State Shared Call Result Thread} {action : Action Call Result Thread}
  {shared : Shared} {trace : List (Transition (State Shared Call Result Thread)
    (Action Call Result Thread))}

/-- Every step hands the lock over properly. -/
theorem Held.step (held : Held st) (step : monitor.Step st action after) : Held after := by
  intro other
  have before := held other
  cases step with
  | @call thread call outside | @spurious thread call outside =>
    -- These steps are taken without the lock.
    have mine := held thread
    by_cases same : other = thread
    · subst same
      simp_all [State.goto, Stage.Holds]
    · simpa [State.goto, same] using before
  | @lock thread call waits free =>
    by_cases same : other = thread
    · simp [State.goto, same, Stage.Holds]
    · simpa [State.goto, same, free, Ne.symm same] using before
  | @wait thread call at_ _ | @unlock thread call _ at_ =>
    -- The thread that gives the lock back is the one that had it.
    have mine := (held thread).mp (by rw [at_]; trivial)
    by_cases same : other = thread
    · simp [State.goto, same, Stage.Holds]
    · simpa [State.goto, same, mine, Ne.symm same] using before
  | @act thread call result shared at_ _ _ =>
    have mine := (held thread).mp (by rw [at_]; trivial)
    by_cases same : other = thread
    · simp [State.goto, same, Stage.Holds, mine]
    · simpa [State.goto, same] using before
  | @broadcast thread call result at_ =>
    have mine := (held thread).mp (by rw [at_]; trivial)
    by_cases same : other = thread
    · simp [same, Stage.Holds, mine]
    · simpa [same] using before

/-- In every reachable state, the thread that the lock names is the one that has it. -/
theorem held_of_run (run : Run monitor.Step (start shared) trace final) : Held final :=
  run.invariant held_start fun _ _ _ held step => held.step step

/-- One thread that moves on moves in the outline only, if nobody else is woken or about to be. -/
theorem outline_of_update {thread : Thread} {stage : Stage Call Result}
    (moved : after.stage = Function.update st.stage thread stage)
    (waking : after.waking = st.waking) :
    after.outline =
      ⟨after.shared, Function.update st.outline.place thread (stage.place st.waking)⟩ := by
  rw [State.outline, moved, waking]
  congr 1
  funext other
  by_cases same : other = thread
  · subst same
    simp
  · simp [same, State.outline]

/-- A step of a thread without the lock is none of the thread with the lock. -/
theorem Held.inside_goto (held : Held st) (thread : Thread) (stage : Stage Call Result)
    (free : ¬ (st.stage thread).Holds) : (st.goto thread stage).inside = st.inside := by
  rw [State.inside, State.inside]
  show st.holder.map _ = _
  cases holds : st.holder with
  | none => rfl
  | some holder =>
    -- The thread that moves is not the one with the lock.
    have apart : holder ≠ thread := by
      intro same
      subst same
      exact free ((held holder).mpr holds)
    simp [State.goto, apart]

/-- The effect of a step. -/
def Event.effect : Event Call Result → List (Call × Result)
  | .act made result => [(made, result)]
  | _ => []

/-- The call that a step returns from. -/
def Event.returned : Event Call Result → List (Call × Result)
  | .unlock made result => [(made, result)]
  | _ => []

/-- The effect of a stretch. -/
def Stretch.effect : Stretch Call Result → List (Call × Result)
  | .act made result => [(made, result)]
  | _ => []

/-- A small step is a stretch of the outline with the same effect, or invisible there. -/
theorem Held.outline_step (held : Held st) (step : monitor.Step st action after) :
    (after.outline = st.outline ∧ action.event.effect = []) ∨
      ∃ move : Move Call Result Thread, monitor.Atomic st.outline move after.outline ∧
        move.stretch.effect = action.event.effect := by
  cases step with
  | @call thread call outside =>
    have same := held.inside_goto thread (.locking call) (by simp [outside, Stage.Holds])
    have still : (st.goto thread (.locking call)).waking = st.waking := by
      rw [State.waking, same, State.waking]
    refine .inr ⟨⟨thread, .call call⟩, ?_, rfl⟩
    rw [outline_of_update rfl still]
    exact .call (by simp [State.outline, outside, Stage.place])
  | @lock thread call waits free =>
    -- The outline does not tell who has the lock.
    refine .inl ⟨?_, rfl⟩
    have still : State.waking { st.goto thread (.testing call) with holder := some thread } =
        st.waking := by simp [State.waking, State.inside, free, State.goto]
    refine (outline_of_update rfl still).trans ?_
    simp [State.outline, State.goto, Stage.place, waits, Function.update_eq_self_iff]
  | @wait thread call at_ full =>
    obtain ⟨mine, inside⟩ := held.inside thread (by rw [at_]; trivial)
    have quiet : st.waking = false := by rw [State.waking, inside, at_]
    have still : State.waking { st.goto thread (.parked call) with holder := none } =
        st.waking := by rw [quiet]; rfl
    refine .inr ⟨⟨thread, .wait⟩, ?_, rfl⟩
    rw [outline_of_update rfl still, quiet]
    exact .wait (by simp [State.outline, at_, Stage.place]) full
  | @act thread call result shared at_ ready does =>
    obtain ⟨mine, inside⟩ := held.inside thread (by rw [at_]; trivial)
    have quiet : st.waking = false := by rw [State.waking, inside, at_]
    -- From the change on, the outline sees the waiting threads as woken.
    have waking : State.waking
        { st.goto thread (.changed call result) with shared := shared } = true := by
      simp [State.waking, State.inside, State.goto, mine]
    have wakes : State.outline { st.goto thread (.changed call result) with shared := shared } =
        ⟨shared, Function.update (fun other => (st.outline.place other).woken) thread .outside⟩ := by
      rw [State.outline, waking]
      congr 1
      funext other
      by_cases same : other = thread
      · subst same
        simp [State.goto, Stage.place]
      · simp [State.goto, same, State.outline, quiet, Stage.place_true]
    refine .inr ⟨⟨thread, .act call result⟩, ?_, rfl⟩
    rw [wakes]
    exact .act (by simp [State.outline, at_, Stage.place]) ready does
  | @broadcast thread call result at_ =>
    obtain ⟨mine, inside⟩ := held.inside thread (by rw [at_]; trivial)
    have waking : st.waking = true := by rw [State.waking, inside, at_]
    -- The broadcast does what the outline has already seen.
    refine .inl ⟨?_, rfl⟩
    rw [State.outline, State.outline]
    congr 1
    funext other
    by_cases same : other = thread
    · subst same
      simp [at_, Stage.place]
    · simp [same, waking]
  | @unlock thread call result at_ =>
    obtain ⟨mine, inside⟩ := held.inside thread (by rw [at_]; trivial)
    have quiet : st.waking = false := by rw [State.waking, inside, at_]
    have still : State.waking { st.goto thread .outside with holder := none } =
        st.waking := by rw [quiet]; rfl
    refine .inl ⟨?_, rfl⟩
    refine (outline_of_update rfl still).trans ?_
    simp [State.outline, State.goto, Stage.place, at_, quiet, Function.update_eq_self_iff]
  | @spurious thread call at_ =>
    have same := held.inside_goto thread (.locking call) (by simp [at_, Stage.Holds])
    have still : (st.goto thread (.locking call)).waking = st.waking := by
      rw [State.waking, same, State.waking]
    rw [outline_of_update rfl still]
    cases waking : st.waking with
    | true =>
      -- The outline has already seen this thread as woken.
      refine .inl ⟨?_, rfl⟩
      simp [State.outline, State.goto, Stage.place, at_, waking, Function.update_eq_self_iff]
    | false =>
      refine .inr ⟨⟨thread, .spurious⟩, ?_, rfl⟩
      exact .spurious (by simp [State.outline, at_, Stage.place, waking])

/-- The effects of a run, in the order in which the threads had the lock. -/
def effects (trace : List (Transition (State Shared Call Result Thread)
    (Action Call Result Thread))) : List (Call × Result) :=
  trace.flatMap fun taken => taken.action.event.effect

/-- A run of small steps is a run of stretches with the same effects. -/
theorem outline_of_run (run : Run monitor.Step (start shared) trace final) :
    ∃ moves, Run monitor.Atomic ⟨shared, fun _ => .outside⟩ moves final.outline ∧
      moves.flatMap (fun taken => taken.action.stretch.effect) = effects trace := by
  apply run.simulated Held State.outline (fun action => action.event.effect)
    (fun move : Move Call Result Thread => move.stretch.effect) held_start
  · intro before action after held step
    exact held.step step
  · intro before action after held step
    exact held.outline_step step

/-- Every thread that waits has to. -/
def AllWait (monitor : Monitor Shared Call Result) (outline : Outline Shared Call Thread) : Prop :=
  ∀ thread call, outline.place thread = .parked call → monitor.Waits call outline.shared

/-- A thread that waits has to, since it has looked at the condition after the last change. -/
theorem AllWait.step {outline next : Outline Shared Call Thread} {move : Move Call Result Thread}
    (all : monitor.AllWait outline) (step : monitor.Atomic outline move next) :
    monitor.AllWait next := by
  intro other asked parked
  cases step with
  | @call thread call outside =>
    by_cases same : other = thread
    · simp [same] at parked
    · exact all other asked (by simpa [same] using parked)
  | @wait thread call locking waits =>
    by_cases same : other = thread
    · -- A thread that starts to wait has just looked at the condition.
      subst same
      simp only [Function.update_self, Place.parked.injEq] at parked
      exact parked ▸ waits
    · exact all other asked (by simpa [same] using parked)
  | @act thread call result shared locking ready does =>
    -- After a change nobody waits, since it wakes everybody.
    by_cases same : other = thread
    · simp [same] at parked
    · simp only [ne_eq, same, not_false_eq_true, Function.update_of_ne] at parked
      cases place : outline.place other <;> simp [place, Place.woken] at parked
  | @spurious thread call waits =>
    by_cases same : other = thread
    · simp [same] at parked
    · exact all other asked (by simpa [same] using parked)

/-- While the lock is free, every thread that waits has to: no wakeup is missed. -/
theorem waits_of_run (run : Run monitor.Step (start shared) trace final)
    (free : final.holder = none) {thread : Thread} {call : Call}
    (parked : final.stage thread = .parked call) : monitor.Waits call final.shared := by
  obtain ⟨moves, reached, _⟩ := outline_of_run run
  have all : monitor.AllWait final.outline :=
    reached.invariant (fun _ _ waits => by cases waits) fun _ _ _ all step => all.step step
  -- With the lock free, a thread that waits does so in the outline too.
  apply all thread call
  simp [State.outline, parked, State.waking, State.inside, free, Stage.place]

/-- When all threads wait, the lock is free. -/
theorem free_of_all_parked (run : Run monitor.Step (start shared) trace final)
    (all : ∀ thread, ∃ call, final.stage thread = .parked call) : final.holder = none := by
  cases holds : final.holder with
  | none => rfl
  | some thread =>
    -- A thread that waits does not have the lock.
    obtain ⟨call, parked⟩ := all thread
    have := (held_of_run run thread).mpr holds
    rw [parked] at this
    exact this.elim

/-- What holds of the data at the start and is kept by every effect holds in every run. -/
theorem shared_invariant {Holds : List (Call × Result) → Shared → Prop}
    (run : Run monitor.Step (start shared) trace final) (initial : Holds [] shared)
    (preserved : ∀ past before call result after, Holds past before →
      ¬ monitor.Waits call before → monitor.Does call before result after →
      Holds (past ++ [(call, result)]) after) :
    Holds (effects trace) final.shared := by
  induction run with
  | start => exact initial
  | @next trace before after action _ step ih =>
    -- Only the change of the data has an effect.
    rw [effects, List.flatMap_append, List.flatMap_singleton]
    cases step with
    | act at_ ready does => exact preserved _ _ _ _ _ ih ready does
    | call _ | lock _ _ | wait _ _ | broadcast _ | unlock _ | spurious _ =>
      exact (List.append_nil _).symm ▸ ih

/-- The calls that have returned in a run. -/
def returns (trace : List (Transition (State Shared Call Result Thread)
    (Action Call Result Thread))) : List (Call × Result) :=
  trace.flatMap fun taken => taken.action.event.returned

/-- The call of the thread with the lock, once it has had its effect. -/
def State.pending (st : State Shared Call Result Thread) : List (Call × Result) :=
  st.inside.elim [] Stage.pending

/-- The calls that had their effect are those that returned, then the one that is about to. -/
theorem effects_eq (run : Run monitor.Step (start shared) trace final) :
    effects trace = returns trace ++ final.pending := by
  induction run with
  | start => rfl
  | @next trace before after action earlier step ih =>
    have held := held_of_run earlier
    rw [effects, returns, List.flatMap_append, List.flatMap_append, List.flatMap_singleton,
      List.flatMap_singleton]
    cases step with
    | @call thread call outside | @spurious thread call outside =>
      have same := held.inside_goto thread (.locking call) (by simp [outside, Stage.Holds])
      simpa [State.pending, same, effects, returns, Event.effect, Event.returned] using ih
    | @lock thread call waits free =>
      simpa [State.pending, State.inside, free, State.goto, Stage.pending, effects, returns,
        Event.effect, Event.returned] using ih
    | @wait thread call at_ _ | @act thread call result shared at_ _ _
    | @broadcast thread call result at_ | @unlock thread call result at_ =>
      -- The thread with the lock goes from one place to the next one.
      obtain ⟨mine, inside⟩ := held.inside thread (by rw [at_]; trivial)
      simp only [State.pending, inside, at_] at ih
      simp_all [effects, returns, State.pending, State.inside, State.goto, Stage.pending,
        Event.effect, Event.returned]

/-- While the lock is free, the calls that had their effect are those that have returned. -/
theorem effects_eq_returns (run : Run monitor.Step (start shared) trace final)
    (free : final.holder = none) : effects trace = returns trace := by
  rw [effects_eq run, State.pending, State.inside, free]
  exact List.append_nil _

end Facts

end Monitor

end Foundations
