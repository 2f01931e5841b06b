import SystemProgramming.ParallelMake.Order
import Mathlib.Order.WellFounded
import Mathlib.Order.RelClasses
import Mathlib.Data.Fintype.EquivFin
import Mathlib.Data.Set.Finite.Basic

/-! No deadlock: as long as a worker has not exited, some worker can make a step of its own. -/

namespace SystemProgramming.ParallelMake

open Foundations

variable {Target Worker : Type*} {rules : Rules Target} {work list : List Target} {target : Target}

/-- The first target must be finished before the second one starts. -/
def Rules.Before (rules : Rules Target) (dependency target : Target) : Prop :=
  dependency ∈ rules.dependencies target

/-- No target depends on itself, over any number of rules. -/
def Rules.Acyclic (rules : Rules Target) : Prop :=
  ∀ target, ¬ Relation.TransGen rules.Before target target

/-- The dependencies of the targets in a list are in the list. -/
def Rules.Closed (rules : Rules Target) (work : List Target) : Prop :=
  ∀ target ∈ work, ∀ dependency ∈ rules.dependencies target, dependency ∈ work

/-- Some target of a list has no dependency in the list. -/
theorem Rules.Acyclic.exists_first (acyclic : rules.Acyclic) (nonempty : list ≠ []) :
    ∃ target ∈ list, ∀ dependency ∈ rules.dependencies target, dependency ∉ list := by
  -- On the finitely many targets of the list, the transitive dependencies are well-founded.
  have founded : WellFounded fun first second : {target // target ∈ list} =>
      Relation.TransGen rules.Before first.1 second.1 := by
    have finite : Finite {target // target ∈ list} := List.finite_toSet list
    have transitive : IsTrans {target // target ∈ list}
        fun first second => Relation.TransGen rules.Before first.1 second.1 :=
      ⟨fun _ _ _ one two => one.trans two⟩
    have irreflexive : Std.Irrefl fun first second : {target // target ∈ list} =>
        Relation.TransGen rules.Before first.1 second.1 := ⟨fun target => acyclic target.1⟩
    exact Finite.wellFounded_of_trans_of_irrefl _
  -- A minimal target has no dependency among the targets of the list.
  obtain ⟨first, _, minimal⟩ := founded.has_min Set.univ
    ⟨⟨list.head nonempty, List.head_mem nonempty⟩, trivial⟩
  exact ⟨first.1, first.2, fun dependency member listed =>
    minimal ⟨dependency, listed⟩ trivial (.single member)⟩

/-- A worker with a target will look at the list again. -/
theorem active_of_target {place : Place Target} (working : place.target ≠ none) :
    place.active = true := by
  -- A worker has a target only between its scan and the end of `set_state`.
  cases place with
  | scanned | executing | setting => rfl
  | _ => exact absurd rfl working

/--
Who holds the lock, and why nobody waits forever: a worker that found nothing has left something in
the list, and as long as a worker waits, another one will look at the list again.
-/
structure Awake (st : State Target Worker) : Prop where
  lock : ∀ worker, st.targetMut = some worker ↔ (st.place worker).holds = true
  missing : ∀ worker, st.place worker = .missed → st.allVertexDfs ≠ []
  waking : ∀ worker, st.place worker = .parked → st.allVertexDfs = [] →
    ∃ other, (st.place other).target ≠ none
  active : ∀ worker, st.place worker = .parked ∨ st.place worker = .missed →
    ∃ other, (st.place other).active = true

/-- At first everyone is about to look at the list. -/
theorem Awake.start (work : List Target) : Awake (start work : State Target Worker) where
  lock worker := by simp [ParallelMake.start, Place.holds]
  missing _ := nofun
  waking _ := nofun
  active _ := nofun

variable {st st' : State Target Worker} {worker : Worker} {action : Action Target Worker}
  {trace : List (Transition (State Target Worker) (Action Target Worker))}
  {final : State Target Worker}

/-- When a scan finds nothing, some worker is working on a target that has not finished. -/
theorem Ordered.working_of_missed (ordered : Ordered rules work st) (acyclic : rules.Acyclic)
    (closed : rules.Closed work) (nonempty : st.allVertexDfs ≠ [])
    (missed : scan rules st.state st.allVertexDfs = none) :
    ∃ other, (st.place other).target ≠ none := by
  -- The first target of the list waits for a dependency that is no longer in the list.
  obtain ⟨target, member, first⟩ := acyclic.exists_first nonempty
  obtain ⟨dependency, needed, unfinished⟩ := checkDependencies_zero (scan_none missed target member)
  have listed := closed target ((ordered.ledger.placed target).mpr (.inl member)) dependency needed
  -- That dependency is neither waiting nor finished, so a worker has it.
  rcases (ordered.ledger.placed dependency).mp listed with waits | ⟨other, held⟩ | set
  · exact absurd waits (first dependency needed)
  · exact ⟨other, fun none => by simp only [ledgerOf, none] at held; cases held⟩
  · exact absurd unfinished set

/-- The lock is free for everyone else when one worker has it or nobody does. -/
theorem Awake.others_free (awake : Awake st)
    (mine : st.targetMut = none ∨ st.targetMut = some worker) {other : Worker}
    (different : other ≠ worker) : (st.place other).holds = false := by
  -- Whoever holds the lock is its one owner.
  rw [Bool.eq_false_iff]
  intro holds
  have owner := (awake.lock other).mpr holds
  rcases mine with free | own
  · rw [free] at owner
    cases owner
  · rw [own] at owner
    exact different (Option.some.inj owner).symm

/-- A worker that works on a target is another one than a worker without a target. -/
theorem working_ne {places : Worker → Place Target} {other : Worker}
    (working : (places other).target ≠ none) (idle : (places worker).target = none) :
    other ≠ worker := by
  intro same
  subst same
  exact working idle

/-- As long as a worker has not exited, some worker is active. -/
theorem Awake.someone (awake : Awake st) (alive : st.place worker ≠ .exited) :
    ∃ other, (st.place other).active = true := by
  -- A worker that waits has somebody who is awake.
  cases place : st.place worker with
  | exited => exact absurd place alive
  | missed => exact awake.active worker (.inr place)
  | parked => exact awake.active worker (.inl place)
  | _ => exact ⟨worker, by rw [place]; rfl⟩

variable [DecidableEq Worker]

/-- A worker that lets go of the lock, or does not have it, leaves the lock free. -/
theorem Awake.unlock (awake : Awake st) (mine : st.targetMut = none ∨ st.targetMut = some worker)
    {place : Place Target} (lets : place.holds = false) (other : Worker) :
    (none : Option Worker) = some other ↔
      (Function.update st.place worker place other).holds = true := by
  -- The worker has let go, and nobody else had the lock.
  rw [Function.update_apply]
  split
  · simp [lets]
  · rename_i different
    simp [awake.others_free mine different]

/-- A worker that takes the free lock has it alone. -/
theorem Awake.lock_taken (awake : Awake st) (free : st.targetMut = none) {place : Place Target}
    (holds : place.holds = true) (other : Worker) :
    some worker = some other ↔ (Function.update st.place worker place other).holds = true := by
  -- The worker has the lock, and nobody else had it.
  rw [Function.update_apply]
  split
  · rename_i same
    simp [holds, same]
  · rename_i different
    simp [awake.others_free (.inl free) different, Ne.symm different]

/-- The lock stays where it is when a worker without it moves to a place without it. -/
theorem Awake.lock_kept (awake : Awake st) {place : Place Target}
    (same : place.holds = (st.place worker).holds) (other : Worker) :
    st.targetMut = some other ↔ (Function.update st.place worker place other).holds = true := by
  -- Who has the lock is seen from the places.
  rw [awake.lock other, Function.update_apply]
  split
  · rename_i equal
    rw [same, equal]
  · exact Iff.rfl

/-- A broadcast moves nobody who has the lock. -/
@[simp] theorem holds_signaled (place : Place Target) : place.signaled.holds = place.holds := by
  cases place <;> rfl

/-- A worker that is where the moved one is not was there before. -/
theorem waited_before {places : Worker → Place Target} {place after : Place Target} {other : Worker}
    (waits : Function.update places worker place other = after) (differ : place ≠ after) :
    places other = after := by
  -- The moved worker is at its new place, and the others are where they were.
  rw [Function.update_apply] at waits
  split at waits
  · exact absurd waits differ
  · exact waits

/-- A worker that moves without losing its target keeps the others working. -/
theorem working_update {places : Worker → Place Target} {place : Place Target}
    (keeps : (places worker).target ≠ none → place.target ≠ none)
    (working : ∃ other, (places other).target ≠ none) :
    ∃ other, (Function.update places worker place other).target ≠ none := by
  -- The worker that has a target is the moved one, or another one.
  obtain ⟨other, target⟩ := working
  refine ⟨other, ?_⟩
  rw [Function.update_apply]
  split
  · rename_i same
    exact keeps (same ▸ target)
  · exact target

/-- A worker without a target or without a turn is not the one that is awake. -/
theorem active_update {places : Worker → Place Target} {place : Place Target} {other : Worker}
    (lively : (places other).active = true) (idle : (places worker).active = false ∨ other ≠ worker) :
    (Function.update places worker place other).active = true := by
  -- The awake worker is not the one that moves.
  have different : other ≠ worker := by
    rcases idle with idle | different
    · intro same
      subst same
      rw [lively] at idle
      cases idle
    · exact different
  rw [Function.update_of_ne different]
  exact lively

/-- A move of one worker, with the list as it was, keeps everyone awake if that worker is active. -/
theorem Awake.moved (awake : Awake st) {place : Place Target} {lock : Option Worker}
    (locked : ∀ other, lock = some other ↔
      (Function.update st.place worker place other).holds = true)
    (keeps : (st.place worker).target ≠ none → place.target ≠ none) (lively : place.active = true) :
    Awake { st.goto worker place with targetMut := lock } where
  lock := locked
  missing other missed := by
    -- The moved worker is active, so it has not missed anything.
    refine awake.missing other (waited_before missed ?_)
    rintro rfl
    cases lively
  waking other parked empty := by
    -- The moved worker is active, so it is not parked.
    refine working_update keeps (awake.waking other (waited_before parked ?_) empty)
    rintro rfl
    cases lively
  active _ _ := ⟨worker, by simpa [State.goto] using lively⟩

variable [DecidableEq Target]

/-- Every step keeps someone awake as long as anyone waits. -/
theorem Awake.step (awake : Awake st) (ordered : Ordered rules work st) (acyclic : rules.Acyclic)
    (closed : rules.Closed work) (step : Step rules st action st') : Awake st' := by
  cases step with
  | @exit worker ready free empty =>
    -- The worker that exits had no target.
    have idle : (st.place worker).target = none := by rw [ready]; rfl
    -- With an empty list, whoever is parked waits for a worker that still has a target.
    refine ⟨awake.lock_kept (by rw [ready]; rfl), fun other missed => ?_, fun other parked _ => ?_,
      fun other waits => ?_⟩
    · exact awake.missing other (waited_before missed (by simp))
    · exact working_update (fun target => absurd idle target)
        (awake.waking other (waited_before parked (by simp)) empty)
    · rcases waits with parked | missed
      · obtain ⟨third, working⟩ := awake.waking other (waited_before parked (by simp)) empty
        exact ⟨third, active_update (active_of_target working) (.inr (working_ne working idle))⟩
      · exact absurd empty (awake.missing other (waited_before missed (by simp)))
  | @take worker target verdict ready free found =>
    refine ⟨awake.lock_taken free rfl, fun other missed => ?_, fun _ _ _ => ⟨worker, ?_⟩,
      fun _ _ => ⟨worker, ?_⟩⟩
    · -- The lock is free, so nobody is between a scan and its wait.
      have before : st.place other = .missed := waited_before missed (by simp)
      have owner := (awake.lock other).mpr (by rw [before]; rfl)
      rw [free] at owner
      cases owner
    · simp [State.goto, Place.target]
    · simp [State.goto, Place.active]
  | @miss worker ready free nonempty missed =>
    refine ⟨awake.lock_taken free rfl, fun _ _ => nonempty, fun _ _ empty => absurd empty nonempty,
      fun _ _ => ?_⟩
    -- A scan that finds nothing waits for a worker that has a target.
    obtain ⟨third, working⟩ := ordered.working_of_missed acyclic closed nonempty missed
    have idle : (st.place worker).target = none := by rw [ready]; rfl
    exact ⟨third, active_update (active_of_target working) (.inr (working_ne working idle))⟩
  -- The worker parks with the lock, which the wait lets go.
  | @park worker missed =>
    have mine : st.targetMut = some worker := (awake.lock worker).mpr (by rw [missed]; rfl)
    have nonempty := awake.missing worker missed
    refine ⟨awake.unlock (.inr mine) rfl, fun _ _ => nonempty,
      fun _ _ empty => absurd empty nonempty, fun _ _ => ?_⟩
    -- Another worker was awake when this one found nothing.
    obtain ⟨third, lively⟩ := awake.active worker (.inr missed)
    exact ⟨third, active_update lively (.inl (by rw [missed]; rfl))⟩
  -- The check lets go of the lock and keeps the target.
  | @check worker target accessible probes scanned _ =>
    have mine : st.targetMut = some worker := (awake.lock worker).mpr (by rw [scanned]; rfl)
    refine awake.moved (awake.unlock (.inr mine) ?_) (fun _ => ?_) ?_
    all_goals split <;> simp [Place.holds, Place.target, Place.active]
  -- Skipping lets go of the lock and keeps the target.
  | @skip worker target verdict scanned _ =>
    have mine : st.targetMut = some worker := (awake.lock worker).mpr (by rw [scanned]; rfl)
    exact awake.moved (awake.unlock (.inr mine) rfl) (fun _ => by simp [Place.target]) rfl
  -- Running the commands needs no lock and keeps the target.
  | @execute worker target results executing _ =>
    exact awake.moved (awake.lock_kept (by rw [executing]; rfl)) (fun _ => by simp [Place.target]) rfl
  | @setState worker target newState at_setting =>
    -- The broadcast leaves nobody parked.
    refine ⟨fun other => ?_, fun other missed => ?_, fun other parked _ => ?_,
      fun _ _ => ⟨worker, by simp [Place.active]⟩⟩
    · rw [awake.lock other]
      simp only [Function.update_apply]
      split
      · rename_i same
        rw [same, at_setting]
        rfl
      · rw [holds_signaled]
    · have before := @waited_before _ _ _ _ (fun other => (st.place other).signaled) .ready _ _ missed
        (by simp)
      exact awake.missing other (eq_of_signaled before (by simp))
    · have before := @waited_before _ _ _ _ (fun other => (st.place other).signaled) .ready _ _ parked
        (by simp)
      have asleep := eq_of_signaled before (by simp)
      rw [asleep] at before
      cases before
  -- A woken worker has no target, and looks at the list again.
  | @wake worker woken free =>
    exact awake.moved (awake.lock_kept (by rw [woken]; rfl))
      (fun target => absurd (by rw [woken]; rfl) target) rfl
  -- A spurious wakeup only brings the worker back to its loop.
  | @spurious worker parked =>
    exact awake.moved (awake.lock_kept (by rw [parked]; rfl))
      (fun target => absurd (by rw [parked]; rfl) target) rfl

/-- In every run, someone is awake as long as anyone waits. -/
theorem awake_of_run (nodup : work.Nodup) (acyclic : rules.Acyclic) (closed : rules.Closed work)
    (run : Run (Step rules) (start work) trace final) : Awake final := by
  -- Both invariants are kept together along the run.
  have both := @Run.invariant _ _ _ _ _ _ (fun st => Ordered rules work st ∧ Awake st) run
    ⟨.start nodup, .start work⟩ fun _ _ _ both step =>
      ⟨both.1.step step, both.2.step both.1 acyclic closed step⟩
  exact both.2

/-- A step that the worker makes on its own, not a spurious wakeup. -/
def CanStep (rules : Rules Target) (st : State Target Worker) (worker : Worker) : Prop :=
  ∃ event st', event ≠ .spurious ∧ Step rules st ⟨worker, event⟩ st'

/-- An active worker can go on when it has the lock or the lock is free. -/
theorem can_step_of_active (lively : (st.place worker).active = true)
    (free : (st.place worker).holds = true ∨ st.targetMut = none) : CanStep rules st worker := by
  cases place : st.place worker with
  | ready =>
    -- The lock is free, since the worker does not hold it yet.
    have unlocked : st.targetMut = none := free.resolve_left (by rw [place]; simp [Place.holds])
    -- With the lock, the worker exits, or scans the list.
    by_cases empty : st.allVertexDfs = []
    · exact ⟨.exit, _, by simp, .exit place unlocked empty⟩
    · cases scanned : scan rules st.state st.allVertexDfs with
      | none => exact ⟨.miss, _, by simp, .miss place unlocked empty scanned⟩
      | some found => exact ⟨.take found.1 found.2, _, by simp, .take place unlocked scanned⟩
  | scanned target verdict =>
    -- The verdict is to check the file, or to skip the rule.
    by_cases good : verdict = 1
    · subst good
      exact ⟨.check false (List.replicate (rules.dependencies target).length ⟨false, none, none⟩), _,
        by simp, .check place List.length_replicate⟩
    · exact ⟨.skip, _, by simp, .skip place good⟩
  | executing target =>
    exact ⟨.execute (List.replicate (rules.commands target).length 0), _, by simp,
      .execute place List.length_replicate⟩
  | setting target newState => exact ⟨.setState, _, by simp, .setState place⟩
  | woken =>
    have unlocked : st.targetMut = none := free.resolve_left (by rw [place]; simp [Place.holds])
    exact ⟨.wake, _, by simp, .wake place unlocked⟩
  | missed =>
    rw [place] at lively
    cases lively
  | parked =>
    rw [place] at lively
    cases lively
  | exited =>
    rw [place] at lively
    cases lively

/-- The worker that has the lock can go on. -/
theorem can_step_of_holds (owner : (st.place worker).holds = true) : CanStep rules st worker := by
  -- The lock is held after a scan only, with a target or without one.
  cases place : st.place worker with
  | missed => exact ⟨.park, _, by simp, .park place⟩
  | scanned target verdict => exact can_step_of_active (by rw [place]; rfl) (.inl owner)
  | _ =>
    rw [place] at owner
    cases owner

/--
Parallel make never deadlocks: in every state of every run, as long as some worker has not exited,
some worker can make a step that is not a spurious wakeup; in particular the workers that have not
exited are not all parked.
-/
theorem never_stuck (nodup : work.Nodup) (acyclic : rules.Acyclic) (closed : rules.Closed work)
    (run : Run (Step rules) (start work) trace final) (alive : final.place worker ≠ .exited) :
    (∃ other, CanStep rules final other) ∧
      ∃ other, final.place other ≠ .exited ∧ final.place other ≠ .parked := by
  have awake := awake_of_run nodup acyclic closed run
  obtain ⟨other, lively⟩ := awake.someone alive
  constructor
  · -- Whoever has the lock can go on; if nobody has it, the active worker can.
    cases lock : final.targetMut with
    | none => exact ⟨other, can_step_of_active lively (.inr lock)⟩
    | some owner => exact ⟨owner, can_step_of_holds ((awake.lock owner).mp lock)⟩
  · -- An active worker is neither parked nor gone.
    refine ⟨other, fun exited => ?_, fun parked => ?_⟩
    · rw [exited] at lively
      cases lively
    · rw [parked] at lively
      cases lively

/-- The sample rules have no cycle, since dependencies have larger numbers. -/
theorem sampleRules_acyclic : sampleRules.Acyclic := by
  -- Along the dependencies, the numbers grow.
  have larger {first second : Nat} (before : Relation.TransGen sampleRules.Before first second) :
      second < first := by
    have one {dependency target : Nat} (direct : sampleRules.Before dependency target) :
        target < dependency := by
      simp only [Rules.Before, sampleRules] at direct
      split at direct
      · rename_i goal
        rw [List.mem_singleton.mp direct, goal]
        decide
      · cases direct
    induction before with
    | single direct => exact one direct
    | tail _ direct ih => exact Nat.lt_trans (one direct) ih
  exact fun target cycle => Nat.lt_irrefl target (larger cycle)

/-- After the failure, the worker can go on and take the goal. -/
theorem never_stuck_sample :
    (∃ other, CanStep sampleRules sampleFailed other) ∧
      ∃ other, sampleFailed.place other ≠ .exited ∧ sampleFailed.place other ≠ .parked := by
  -- The one dependency is in the list.
  have closed : sampleRules.Closed [1, 0] := by
    intro target listed dependency needed
    simp only [sampleRules] at needed
    split at needed
    · rw [List.mem_singleton.mp needed]
      decide
    · cases needed
  have alive : sampleFailed.place () ≠ .exited := by simp [sampleFailed]
  exact never_stuck (by decide) sampleRules_acyclic closed sample_run alive

end SystemProgramming.ParallelMake
