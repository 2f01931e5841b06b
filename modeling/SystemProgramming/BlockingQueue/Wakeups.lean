import SystemProgramming.BlockingQueue.Fifo
import SystemProgramming.Foundations.Monitor

/-! The queue as a monitor, lock and broadcast included: no thread waits that could go on. -/

namespace SystemProgramming.BlockingQueue

open Foundations

/-- A call of `queue_push` or `queue_pull`. -/
inductive Call (Data : Type*) where
  | push (data : Data)
  | pull
  deriving DecidableEq, Repr

/-- The address that `malloc` returned to `queue_push`, or the data that `queue_pull` returns. -/
inductive Outcome (Data : Type*) where
  | pushed (newNode : Nat)
  | pulled (data : Data)
  deriving DecidableEq, Repr

variable {Data Thread : Type*}

/-- The condition of the wait loop of a call. -/
def Call.Waits : Call Data → Queue Data → Prop
  | push _, queue => queue.Full
  | pull, queue => queue.Empty

/-- What a call does between its wait loop and its broadcast. -/
def Call.Does : Call Data → Queue Data → Outcome Data → Queue Data → Prop
  | push data, queue, .pushed newNode, after =>
    -- `malloc` returns the address of a node that is not in use.
    newNode ≠ 0 ∧ queue.nodes newNode = none ∧ queue.push newNode data = some after
  | pull, queue, .pulled data, after => queue.pull = some (data, after)
  | _, _, _, _ => False

/-- `queue_push` and `queue_pull` with `pthread_mutex_lock`, `pthread_cond_wait`,
`pthread_cond_broadcast` and `pthread_mutex_unlock`. -/
def queueMonitor (Data : Type*) : Monitor (Queue Data) (Call Data) (Outcome Data) where
  Waits := Call.Waits
  Does := Call.Does

/-- The place that a thread has in its call. -/
def placeOf : Monitor.Place (Call Data) → Place Data
  | .outside => .outside
  | .locking (.push data) => .pushing data
  | .locking .pull => .pulling
  | .parked (.push data) => .pushParked data
  | .parked .pull => .pullParked

/-- The queue and its threads between two stretches under the lock. -/
def stateOf (outline : Monitor.Outline (Queue Data) (Call Data) Thread) : State Data Thread where
  queue := outline.shared
  place thread := placeOf (outline.place thread)

/-- The effect of an event. -/
def Event.effect : Event Data → List (Call Data × Outcome Data)
  | .push newNode data => [(.push data, .pushed newNode)]
  | .pull data => [(.pull, .pulled data)]
  | _ => []

theorem placeOf_woken (place : Monitor.Place (Call Data)) :
    placeOf place.woken = (placeOf place).woken := by
  -- A call that waits does so for a push or for a pull.
  rcases place with _ | (_ | _) | (_ | _) <;> rfl

variable [DecidableEq Thread]

theorem stateOf_update (outline : Monitor.Outline (Queue Data) (Call Data) Thread)
    (thread : Thread) (place : Monitor.Place (Call Data)) :
    stateOf { outline with place := Function.update outline.place thread place } =
      (stateOf outline).goto thread (placeOf place) := by
  rw [stateOf, State.goto, stateOf]
  congr 1
  funext other
  by_cases same : other = thread
  · subst same
    simp
  · simp [same]

/-- A stretch under the lock is a step of the queue. -/
theorem step_of_atomic {outline next : Monitor.Outline (Queue Data) (Call Data) Thread}
    {move : Monitor.Move (Call Data) (Outcome Data) Thread}
    (moved : (queueMonitor Data).Atomic outline move next) :
    ∃ action, Step (stateOf outline) action (stateOf next) ∧
      action.event.effect = move.stretch.effect := by
  cases moved with
  | @call thread call outside =>
    rw [stateOf_update]
    have place : (stateOf outline).place thread = .outside := congrArg placeOf outside
    cases call with
    | push data => exact ⟨_, .callPush place, rfl⟩
    | pull => exact ⟨_, .callPull place, rfl⟩
  | @wait thread call locking waits =>
    rw [stateOf_update]
    have place := congrArg placeOf locking
    cases call with
    | push data => exact ⟨_, .waitPush place waits, rfl⟩
    | pull => exact ⟨_, .waitPull place waits, rfl⟩
  | @act thread call result queue locking ready does =>
    have place := congrArg placeOf locking
    -- The others are woken, and the thread leaves.
    have finished : stateOf ⟨queue, Function.update (fun other => (outline.place other).woken)
        thread .outside⟩ = (stateOf outline).finish thread queue := by
      rw [stateOf, State.finish, stateOf]
      congr 1
      funext other
      by_cases same : other = thread
      · subst same
        simp [placeOf]
      · simp [same, placeOf_woken]
    rw [finished]
    cases call with
    | push data =>
      cases result with
      | pushed newNode =>
        obtain ⟨nonnull, unused, done⟩ := does
        exact ⟨_, .push place ready nonnull unused done, rfl⟩
      | pulled _ => exact does.elim
    | pull =>
      cases result with
      | pushed _ => exact does.elim
      | pulled data => exact ⟨_, .pull place ready does, rfl⟩
  | @spurious thread call parked =>
    have place : (stateOf outline).place thread = placeOf (.parked call) := congrArg placeOf parked
    refine ⟨⟨thread, .spurious⟩, ?_, rfl⟩
    rw [stateOf_update, show placeOf (.locking call) = (placeOf (.parked call)).woken from
      placeOf_woken (.parked call), ← place]
    exact .spurious

variable {trace : List (Transition (Monitor.State (Queue Data) (Call Data) (Outcome Data) Thread)
    (Monitor.Action (Call Data) (Outcome Data) Thread))}
  {final : Monitor.State (Queue Data) (Call Data) (Outcome Data) Thread} {maxSize : Int}

/-- A run of the monitor is a run of the queue, with the same pushes and pulls. -/
theorem run_of_monitor
    (run : Run (queueMonitor Data).Step (Monitor.start (queueCreate maxSize)) trace final) :
    ∃ steps, Run Step (start maxSize) steps (stateOf final.outline) ∧
      steps.flatMap (fun taken => taken.action.event.effect) = Monitor.effects trace := by
  obtain ⟨moves, reached, same⟩ := Monitor.outline_of_run run
  obtain ⟨steps, walked, shown⟩ := reached.simulated (fun _ => True) stateOf
    (fun move => move.stretch.effect) (fun action : Action Data Thread => action.event.effect)
    trivial (fun _ _ _ _ _ => trivial)
    fun _ _ _ _ moved => .inr (step_of_atomic moved)
  exact ⟨steps, walked, shown.trans same⟩

/-- In every state of a run, the queue is sound, and its maximum is that of the start. -/
theorem sound_of_monitor
    (run : Run (queueMonitor Data).Step (Monitor.start (queueCreate maxSize)) trace final) :
    (∃ cells, Sound final.shared cells) ∧ final.shared.maxSize = maxSize := by
  obtain ⟨steps, walked, _⟩ := run_of_monitor run
  obtain ⟨cells, sound, _⟩ := faithful_of_run walked
  exact ⟨⟨cells, sound⟩, maxSize_of_run walked⟩

/-- A queue that is full has exactly its maximum. -/
theorem Sound.size_of_full {queue : Queue Data} {cells : List (Nat × Node Data)}
    (sound : Sound queue cells) (full : queue.Full) : queue.size = queue.maxSize :=
  Int.le_antisymm (sound.bounded full.1) full.2

/-- A queue that is empty has size 0. -/
theorem Sound.size_of_empty {queue : Queue Data} {cells : List (Nat × Node Data)}
    (sound : Sound queue cells) (empty : queue.Empty) : queue.size = 0 := by
  rw [sound.size, sound.head_eq_zero_iff.mp empty]
  rfl

/--
In every run, with any number of threads and spurious wakeups: while the lock is free, a waiting
producer finds the queue at its maximum, and a waiting consumer finds it empty; this is so in
particular when all threads wait.
-/
theorem no_missed_wakeup
    (run : Run (queueMonitor Data).Step (Monitor.start (queueCreate maxSize)) trace final)
    (quiet : final.holder = none ∨ ∀ thread, ∃ call, final.stage thread = .parked call) :
    (∀ thread data, final.stage thread = .parked (.push data) →
      final.shared.Full ∧ 0 < maxSize ∧ final.shared.size = maxSize) ∧
    (∀ thread, final.stage thread = .parked .pull →
      final.shared.Empty ∧ final.shared.size = 0) := by
  -- A thread that waits has given the lock back.
  have free : final.holder = none := quiet.elim id (Monitor.free_of_all_parked run)
  obtain ⟨⟨cells, sound⟩, maximum⟩ := sound_of_monitor run
  constructor
  · intro thread data parked
    have full : final.shared.Full := Monitor.waits_of_run run free parked
    refine ⟨full, maximum ▸ full.1, ?_⟩
    rw [sound.size_of_full full, maximum]
  · intro thread parked
    have empty : final.shared.Empty := Monitor.waits_of_run run free parked
    exact ⟨empty, sound.size_of_empty empty⟩

/-- A single consumer calls, gets the lock and waits, since the queue is empty. -/
theorem consumer_run : ∃ trace, Run (queueMonitor Nat).Step
    (Monitor.start (queueCreate 1) : Monitor.State _ _ _ Unit) trace
    ⟨queueCreate 1, fun _ => .parked .pull, none⟩ := by
  let called : Monitor.State (Queue Nat) (Call Nat) (Outcome Nat) Unit :=
    ⟨queueCreate 1, fun _ => .locking .pull, none⟩
  let locked : Monitor.State (Queue Nat) (Call Nat) (Outcome Nat) Unit :=
    ⟨queueCreate 1, fun _ => .testing .pull, some ()⟩
  have call : (queueMonitor Nat).Step (Monitor.start (queueCreate 1)) ⟨(), .call .pull⟩ called :=
    .call rfl
  have lock : (queueMonitor Nat).Step called ⟨(), .lock⟩ locked := .lock rfl rfl
  have wait : (queueMonitor Nat).Step locked ⟨(), .wait⟩
      ⟨queueCreate 1, fun _ => .parked .pull, none⟩ := .wait rfl rfl
  exact ⟨_, ((Run.start.next call).next lock).next wait⟩

/-- The queue is then empty. -/
theorem no_missed_wakeup_consumer : (queueCreate 1 : Queue Nat).size = 0 := by
  obtain ⟨trace, run⟩ := consumer_run
  exact ((no_missed_wakeup run (.inl rfl)).2 () rfl).2

end SystemProgramming.BlockingQueue
