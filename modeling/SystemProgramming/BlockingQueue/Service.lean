import SystemProgramming.BlockingQueue.Nodes
import SystemProgramming.Foundations.Waiting

/-! Producers and consumers: when they come to rest, and how many of them are stuck then. -/

namespace SystemProgramming.BlockingQueue

open Foundations Monitor

variable {Data Thread : Type*} [DecidableEq Thread] [Fintype Thread]
  {trace : List (Transition (Monitor.State (Queue Data) (Call Data) (Outcome Data) Thread)
    (Monitor.Action (Call Data) (Outcome Data) Thread))}
  {final : Monitor.State (Queue Data) (Call Data) (Outcome Data) Thread} {maxSize : Int}
  {past : List (Call Data × Outcome Data)} {queue : Queue Data}

/-- A push has room for its node, and a pull finds one: whoever need not wait can go on. -/
theorem Kept.serves (kept : Kept maxSize past queue) : (queueMonitor Data).Serves queue := by
  obtain ⟨⟨cells, sound⟩, accounted, -, -⟩ := kept
  intro call ready
  cases call with
  | push data =>
    obtain ⟨newNode, nonnull, unused⟩ := accounted.fresh
    obtain ⟨after, longer, pushed, -⟩ := sound.push ready nonnull unused data
    exact ⟨.pushed newNode, after, nonnull, unused, pushed⟩
  | pull =>
    obtain ⟨data, after, rest, pulled, -⟩ := sound.pull ready
    exact ⟨.pulled data, after, pulled⟩

/--
Threads that make finitely many calls come to rest, since a run is bounded by its calls and spurious
wakeups. When no thread can go on, no thread has the lock, every thread is outside or waits, and no
more of them wait than have to: those pulls for which there was no push, and those pushes for which
there was neither a pull nor room.
-/
theorem queue_comes_to_rest
    (run : Run (queueMonitor Data).Step (Monitor.start (queueCreate maxSize)) trace final) :
    trace.length ≤ (2 * Fintype.card Thread + 5) * (calls trace).length +
        3 * (trace.countP fun taken => taken.action.event.isSpurious) ∧
      ((queueMonitor Data).Stuck final →
        final.holder = none ∧
        (∀ thread, final.stage thread = .outside ∨ ∃ call, final.stage thread = .parked call) ∧
        final.waiting Call.isPull =
          (calls trace).countP Call.isPull - (calls trace).countP Call.isPush ∧
        final.waiting Call.isPush =
          if 0 < maxSize then (calls trace).countP Call.isPush -
            ((calls trace).countP Call.isPull + maxSize.toNat) else 0) := by
  refine ⟨length_le_of_calls run, fun stuck => ?_⟩
  have kept := kept_of_run run
  have serves := kept.serves
  obtain ⟨free, idle⟩ := stuck.free (held_of_run run) serves
  refine ⟨free, idle, ?_⟩
  obtain ⟨⟨cells, sound⟩, -, maximum, size⟩ := kept
  have pushes := stuck.calls_eq run serves Call.isPush
  have pulls := stuck.calls_eq run serves Call.isPull
  -- A pull waits for an empty queue, and a push for a full one.
  have empty : 0 < final.waiting Call.isPull → final.shared.size = 0 := by
    intro some
    obtain ⟨call, pull, waits⟩ := stuck.waits run serves some
    cases call with
    | push => cases pull
    | pull => exact sound.size_of_empty waits
  have full : 0 < final.waiting Call.isPush → 0 < maxSize ∧ final.shared.size = maxSize := by
    intro some
    obtain ⟨call, push, waits⟩ := stuck.waits run serves some
    cases call with
    | push data => exact maximum ▸ ⟨waits.1, sound.size_of_full waits⟩
    | pull => cases push
  have bounded := maximum ▸ sound.bounded
  have nonneg := sound.size
  constructor
  · omega
  · split <;> omega

/-- A lone consumer that waits is stuck. -/
theorem consumer_stuck : (queueMonitor Nat).Stuck
    (⟨queueCreate 1, fun _ => .parked .pull, none⟩ : Monitor.State _ _ _ Unit) := by
  intro action after step
  -- A thread that waits can only be woken for no reason.
  cases step with
  | spurious => exact .inr rfl
  | call stage | lock stage | wait stage | act stage | broadcast stage | unlock stage => cases stage

/-- It has made one pull more than there were pushes. -/
theorem queue_comes_to_rest_consumer : ∃ trace, Run (queueMonitor Nat).Step
    (Monitor.start (queueCreate 1) : Monitor.State _ _ _ Unit) trace
      ⟨queueCreate 1, fun _ => .parked .pull, none⟩ ∧
    1 = (calls trace).countP Call.isPull - (calls trace).countP Call.isPush := by
  obtain ⟨trace, run⟩ := consumer_run
  exact ⟨trace, run, ((queue_comes_to_rest run).2 consumer_stuck).2.2.1⟩

end SystemProgramming.BlockingQueue
