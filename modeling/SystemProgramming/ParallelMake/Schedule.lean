import SystemProgramming.ParallelMake.Evaluation

/-! The schedule does not matter: every complete run ends like the sequential evaluation. -/

namespace SystemProgramming.ParallelMake

open Foundations

section Functions

variable {Target Worker : Type*}

/-- The file system and the commands answer in a step what they always answer for its target. -/
def Follows (outcomes : Outcomes Target)
    (taken : Transition (State Target Worker) (Action Target Worker)) : Prop :=
  match taken.action.event, taken.before.place taken.action.worker with
  | .check accessible probes, .scanned target _ =>
    accessible = outcomes.accessible target ∧ probes = outcomes.probes target
  | .execute results, .executing target => results = outcomes.results target
  | _, _ => True

/-- The commands that a step runs. -/
def ranIn (rules : Rules Target)
    (taken : Transition (State Target Worker) (Action Target Worker)) : List (Target × String) :=
  match taken.action.event, taken.before.place taken.action.worker with
  | .execute results, .executing target =>
    (ranCommands (rules.commands target) results).map (target, ·)
  | _, _ => []

/-- The commands that are run, in the order of their rules' ends. -/
def ran (rules : Rules Target)
    (trace : List (Transition (State Target Worker) (Action Target Worker))) :
    List (Target × String) :=
  trace.flatMap (ranIn rules)

/-- The target whose commands a step runs. -/
def executedIn (taken : Transition (State Target Worker) (Action Target Worker)) : Option Target :=
  match taken.action.event, taken.before.place taken.action.worker with
  | .execute _, .executing target => some target
  | _, _ => none

/-- The targets whose commands are run. -/
def executed (trace : List (Transition (State Target Worker) (Action Target Worker))) :
    List Target := trace.filterMap executedIn

/-- The target whose new state a step finds out. -/
def decides (taken : Transition (State Target Worker) (Action Target Worker)) : Option Target :=
  match taken.action.event, taken.before.place taken.action.worker with
  | .check accessible probes, .scanned target _ =>
    if checkFileDependencies accessible probes = 0 then none else some target
  | .skip, .scanned target _ => some target
  | .execute _, .executing target => some target
  | _, _ => none

/-- The new state of the target is known, and possibly set already. -/
def Decided (st : State Target Worker) (target : Target) : Prop :=
  st.state target ≠ 0 ∨ ∃ worker newState, st.place worker = .setting target newState

/-- What a worker is about to do with its target is what the final states tell. -/
def Place.Foretold (rules : Rules Target) (outcomes : Outcomes Target) (value : Target → Int) :
    Place Target → Prop
  | .scanned target verdict =>
    verdict = 1 ∧ AllGood rules value target ∨ verdict = -1 ∧ ¬ AllGood rules value target
  | .executing target => Runs rules outcomes value target
  | .setting target newState => newState = value target
  | _ => True

end Functions

variable {Target Worker : Type*} {rules : Rules Target} {outcomes : Outcomes Target}
  {work : List Target} {value : Target → Int} {target : Target}
  {st st' : State Target Worker} {action : Action Target Worker} {worker : Worker}
  {trace : List (Transition (State Target Worker) (Action Target Worker))}

/-- The states that are set, the places of the workers and the commands that were run are foretold. -/
structure Foretold (rules : Rules Target) (outcomes : Outcomes Target) (value : Target → Int)
    (trace : List (Transition (State Target Worker) (Action Target Worker)))
    (st : State Target Worker) : Prop where
  state : ∀ target, st.state target ≠ 0 → st.state target = value target
  place : ∀ worker, (st.place worker).Foretold rules outcomes value
  distinct : (executed trace).Nodup
  member : ∀ target, target ∈ executed trace ↔ Runs rules outcomes value target ∧ Decided st target

/-- At first nothing is decided. -/
theorem Foretold.start : Foretold rules outcomes value [] (start work : State Target Worker) where
  state _ set := absurd rfl set
  place _ := trivial
  distinct := List.nodup_nil
  member target := by simp [executed, Decided, ParallelMake.start]

/-- With fixed outcomes, the commands that are run are those of the executed targets. -/
theorem ran_eq (follows : ∀ taken ∈ trace, Follows outcomes taken) :
    ran rules trace = (executed trace).flatMap (outcomes.commands rules) := by
  induction trace with
  | nil => rfl
  | cons taken rest ih =>
    have first := follows taken List.mem_cons_self
    have others := ih fun later member => follows later (List.mem_cons_of_mem _ member)
    -- A step runs the commands of the target that it executes, up to the first that fails.
    have one : ranIn rules taken = (executedIn taken).toList.flatMap (outcomes.commands rules) := by
      rw [Follows] at first
      rw [ranIn, executedIn]
      split at first
      · rename_i event place
        simp [event, place]
      · rename_i event place
        simp [event, place, first, Outcomes.commands]
      · rename_i unchecked unexecuted
        split
        · rename_i event place
          exact absurd place (unexecuted _ _ event)
        · rfl
    rw [ran, List.flatMap_cons, ← ran, one, others]
    cases made : executedIn taken <;> simp [executed, made]

/-- A worker that scans the list finds out what the final states tell. -/
theorem Foretold.verdict (foretold : Foretold rules outcomes value trace st)
    (ordered : Ordered rules work st) {verdict : Int}
    (found : scan rules st.state st.allVertexDfs = some (target, verdict)) :
    verdict = 1 ∧ AllGood rules value target ∨ verdict = -1 ∧ ¬ AllGood rules value target := by
  obtain ⟨_, decided, answer⟩ := scan_some found
  -- The states that occur are the three that a check tells apart.
  have known (other : Target) : st.state other = 0 ∨ st.state other = -1 ∨ st.state other = 1 := by
    rcases ordered.known other with zero | failed | ⟨good, _⟩ <;> omega
  rcases checkDependencies_range st.state (rules.dependencies target) with zero | failed | good
  · -- The scan does not take a target whose check is undecided.
    exact absurd (answer.trans zero) decided
  · -- A dependency that has failed has failed for good.
    obtain ⟨dependency, needed, bad⟩ := checkDependencies_failed failed
    refine .inr ⟨answer.trans failed, fun all => ?_⟩
    have one := all dependency needed
    have final := foretold.state dependency (by omega)
    omega
  · -- All dependencies are good, and they keep the states that they have.
    refine .inl ⟨answer.trans good, fun dependency needed => ?_⟩
    have one := checkDependencies_good known good dependency needed
    rw [← foretold.state dependency (by omega), one]

/-- The target that a worker has is in the work list. -/
theorem Ordered.listed (ordered : Ordered rules work st)
    (holds : (st.place worker).target = some target) : target ∈ work :=
  (ordered.ledger.placed target).mpr (.inr (.inl ⟨worker, holds⟩))

/-- A rule whose commands are about to run is not decided yet. -/
theorem Ordered.undecided (ordered : Ordered rules work st)
    (executing : st.place worker = .executing target) : ¬ Decided st target := by
  -- The worker has the target, so its state is not set.
  have held : (ledgerOf st).held worker = some target := by
    simp only [ledgerOf, executing]
    rfl
  intro known
  rcases known with set | ⟨other, newState, at_setting⟩
  · exact ordered.ledger.held_open target worker held set
  · -- Two workers never have one target.
    have also : (ledgerOf st).held other = some target := by
      simp only [ledgerOf, at_setting]
      rfl
    have same := ordered.ledger.once target worker other held also
    rw [← same, executing] at at_setting
    cases at_setting

/-- Commands are run by a worker that is executing. -/
theorem executing_of_executedIn (made : executedIn ⟨st, action, st'⟩ = some target) :
    st.place action.worker = .executing target := by
  simp only [executedIn] at made
  split at made
  · rename_i place
    rw [← Option.some.inj made]
    exact place
  · cases made

variable [DecidableEq Worker]

/-- A worker that moves between places before `set_state` does not set anything. -/
theorem setting_update {places : Worker → Place Target} {place : Place Target}
    (old : ∀ newState, places worker ≠ .setting target newState)
    (new : ∀ newState, place ≠ .setting target newState) :
    (∃ other newState, Function.update places worker place other = .setting target newState) ↔
      ∃ other newState, places other = .setting target newState := by
  -- Only the moved worker could make a difference.
  refine exists_congr fun other => exists_congr fun newState => ?_
  rw [Function.update_apply]
  split
  · rename_i same
    rw [same]
    exact ⟨fun now => absurd now (new newState), fun now => absurd now (old newState)⟩
  · exact Iff.rfl

/-- A worker that comes to `set_state` decides its target. -/
theorem setting_update_to {places : Worker → Place Target} {decided : Target} {value : Int}
    (old : ∀ newState, places worker ≠ .setting target newState) :
    (∃ other newState,
        Function.update places worker (.setting decided value) other = .setting target newState) ↔
      (∃ other newState, places other = .setting target newState) ∨ decided = target := by
  -- The worker is the one that sets the target, or sets another one.
  by_cases same : decided = target
  · subst same
    exact ⟨fun _ => .inr rfl, fun _ => ⟨worker, value, Function.update_self _ _ _⟩⟩
  · rw [setting_update old fun newState now => same (Place.setting.inj now).1]
    simp [same]

variable [DecidableEq Target]

/-- A step decides at most one more target, and never takes a decision back. -/
theorem decided_step (ordered : Ordered rules work st) (step : Step rules st action st')
    (target : Target) :
    Decided st' target ↔ Decided st target ∨ decides ⟨st, action, st'⟩ = some target := by
  -- A worker that neither leaves nor enters `set_state` changes nothing.
  have idle (worker : Worker) (place : Place Target) (states : st'.state = st.state)
      (places : st'.place = Function.update st.place worker place)
      (old : ∀ newState, st.place worker ≠ .setting target newState)
      (new : ∀ newState, place ≠ .setting target newState)
      (undecided : decides ⟨st, action, st'⟩ = none) :
      Decided st' target ↔ Decided st target ∨ decides ⟨st, action, st'⟩ = some target := by
    rw [Decided, Decided, states, places, setting_update old new, undecided]
    simp
  -- A worker that enters `set_state` decides its target.
  have enter (worker : Worker) (decided : Target) (newState : Int)
      (states : st'.state = st.state)
      (places : st'.place = Function.update st.place worker (.setting decided newState))
      (old : ∀ newState, st.place worker ≠ .setting target newState)
      (decides_it : decides ⟨st, action, st'⟩ = some decided) :
      Decided st' target ↔ Decided st target ∨ decides ⟨st, action, st'⟩ = some target := by
    rw [Decided, Decided, states, places, setting_update_to old, decides_it, or_assoc,
      Option.some.injEq]
  cases step with
  | exit ready | take ready | miss ready | park ready | wake ready | spurious ready =>
    exact idle _ _ rfl rfl (by simp [ready]) (by simp) rfl
  | @check worker taken accessible probes scanned _ =>
    have old (newState : Int) : st.place worker ≠ .setting target newState := by
      rw [scanned]
      simp
    -- The check asks for the commands, or decides the target itself.
    by_cases runs : checkFileDependencies accessible probes = 0
    · refine idle worker (.executing taken) rfl ?_ old (by simp) ?_
      · simp [State.goto, runs]
      · simp [decides, scanned, runs]
    · refine enter worker taken (checkFileDependencies accessible probes) rfl ?_ old ?_
      · simp [State.goto, runs]
      · simp [decides, scanned, runs]
  | @skip worker taken verdict scanned _ =>
    refine enter worker taken verdict rfl rfl ?_ ?_
    · rw [scanned]
      simp
    · simp [decides, scanned]
  | @execute worker taken results executing _ =>
    refine enter worker taken (executeCommands results) rfl rfl ?_ ?_
    · rw [executing]
      simp
    · simp [decides, executing]
  | @setState worker taken newState at_setting =>
    -- What was about to be set is now set, and the other workers set what they set before.
    have nonzero : newState ≠ 0 := by
      rcases ordered.newState at_setting with failed | ⟨good, _⟩ <;> omega
    by_cases same : taken = target
    · subst same
      refine ⟨fun _ => .inl (.inr ⟨worker, newState, at_setting⟩), fun _ => .inl ?_⟩
      simpa using nonzero
    · have places (other : Worker) (value : Int) :
          Function.update (fun other => (st.place other).signaled) worker .ready other =
            .setting target value ↔ st.place other = .setting target value := by
        rw [Function.update_apply]
        split
        · rename_i own
          rw [own, at_setting]
          exact ⟨by simp, fun now => absurd (Place.setting.inj now).1 same⟩
        · exact ⟨fun now => eq_of_signaled now (by simp), fun now => by rw [now]; rfl⟩
      simp only [Decided, places, Function.update_of_ne (Ne.symm same)]
      simp [decides]

/-- A step runs the commands of the rule that it decides exactly when the final states tell so. -/
theorem Foretold.executedIn_iff (foretold : Foretold rules outcomes value trace st)
    (step : Step rules st action st') (follows : Follows outcomes ⟨st, action, st'⟩) :
    executedIn ⟨st, action, st'⟩ = some target ↔
      Runs rules outcomes value target ∧ decides ⟨st, action, st'⟩ = some target := by
  cases step with
  | @check worker taken accessible probes scanned _ =>
    -- The check that decides a rule has not asked for its commands.
    have answer : checkFileDependencies accessible probes = outcomes.file taken := by
      simp only [Follows, scanned] at follows
      rw [follows.1, follows.2, Outcomes.file]
    simp only [executedIn, decides, scanned, answer, reduceCtorEq, false_iff, not_and]
    intro both decided
    obtain ⟨_, asked⟩ := both
    split at decided
    · cases decided
    · rename_i finished
      rw [Option.some.inj decided] at finished
      exact finished asked
  -- A rule that is skipped has a bad dependency.
  | @skip worker taken verdict scanned different =>
    have told := foretold.place worker
    rw [scanned] at told
    simp only [executedIn, decides, scanned, reduceCtorEq, false_iff, not_and]
    intro both decided
    obtain ⟨good, _⟩ := both
    obtain rfl := Option.some.inj decided
    rcases told with ⟨one, _⟩ | ⟨_, bad⟩
    · exact different one
    · exact bad good
  -- A worker executes what the final states tell it to.
  | @execute worker taken results executing _ =>
    have told := foretold.place worker
    rw [executing] at told
    simp only [executedIn, decides, executing, Option.some.injEq]
    refine ⟨fun same => ⟨?_, same⟩, And.right⟩
    exact same ▸ told
  | _ => simp [executedIn, decides]

/-- A step brings its worker to a place that is foretold. -/
theorem Foretold.place_step (foretold : Foretold rules outcomes value trace st)
    (ordered : Ordered rules work st)
    (settled : ∀ target ∈ work, Settled rules outcomes value target)
    (step : Step rules st action st') (follows : Follows outcomes ⟨st, action, st'⟩)
    (other : Worker) : (st'.place other).Foretold rules outcomes value := by
  -- Only the worker of the step moves.
  have move {worker : Worker} {place : Place Target} (told : place.Foretold rules outcomes value) :
      (Function.update st.place worker place other).Foretold rules outcomes value := by
    rw [Function.update_apply]
    split
    · exact told
    · exact foretold.place other
  cases step with
  | exit | miss | park | wake | spurious => exact move trivial
  | take _ _ found => exact move (foretold.verdict ordered found)
  | @check worker taken accessible probes scanned _ =>
    have answer : checkFileDependencies accessible probes = outcomes.file taken := by
      simp only [Follows, scanned] at follows
      rw [follows.1, follows.2, Outcomes.file]
    have told := foretold.place worker
    rw [scanned] at told
    have good : AllGood rules value taken := by
      rcases told with ⟨_, good⟩ | ⟨impossible, _⟩
      · exact good
      · cases impossible
    refine move ?_
    rw [answer]
    split
    · -- The commands are asked for, and the dependencies are good.
      rename_i asked
      exact ⟨good, asked⟩
    · -- The file decides the rule, as the evaluation says.
      rename_i finished
      have final := settled taken (ordered.listed (by rw [scanned]; rfl))
      rw [Settled, if_pos good, Outcomes.newState, if_neg finished] at final
      exact final.symm
  | @skip worker taken verdict scanned different =>
    have told := foretold.place worker
    rw [scanned] at told
    have final := settled taken (ordered.listed (by rw [scanned]; rfl))
    refine move ?_
    rcases told with ⟨one, _⟩ | ⟨failed, bad⟩
    · exact absurd one different
    · rw [Settled, if_neg bad] at final
      exact failed.trans final.symm
  | @execute worker taken results executing _ =>
    have told := foretold.place worker
    rw [executing] at told
    have same : results = outcomes.results taken := by
      simpa only [Follows, executing] using follows
    have final := settled taken (ordered.listed (by rw [executing]; rfl))
    rw [Settled, if_pos told.1, Outcomes.newState, if_pos told.2, ← same] at final
    exact move final.symm
  | @setState worker taken newState at_setting =>
    dsimp only
    rw [Function.update_apply]
    split
    · -- The worker is ready for the next target.
      trivial
    · have told := foretold.place other
      cases place : st.place other with
      | parked => trivial
      | _ => simpa only [place, Place.signaled] using told

/-- Every step does what was foretold. -/
theorem Foretold.step (foretold : Foretold rules outcomes value trace st)
    (ordered : Ordered rules work st)
    (settled : ∀ target ∈ work, Settled rules outcomes value target)
    (step : Step rules st action st') (follows : Follows outcomes ⟨st, action, st'⟩) :
    Foretold rules outcomes value (trace ++ [⟨st, action, st'⟩]) st' := by
  -- The step adds what it executes to the history.
  have longer : executed (trace ++ [⟨st, action, st'⟩]) =
      executed trace ++ (executedIn ⟨st, action, st'⟩).toList := by
    rw [executed, List.filterMap_append]
    cases made : executedIn ⟨st, action, st'⟩ <;> simp [executed, made]
  refine ⟨fun target set => ?_, foretold.place_step ordered settled step follows, ?_,
    fun target => ?_⟩
  · cases step with
    | @setState worker taken newState at_setting =>
      have told := foretold.place worker
      rw [at_setting] at told
      simp only [Function.update_apply] at set ⊢
      split
      · rename_i same
        rw [same]
        exact told
      · rename_i different
        rw [if_neg different] at set
        exact foretold.state target set
    | _ => exact foretold.state target set
  · rw [longer, List.nodup_append]
    refine ⟨foretold.distinct, by cases executedIn _ <;> simp, ?_⟩
    -- A rule that was executed is decided, and one that is being executed is not.
    rintro first before second now rfl
    have executing := executing_of_executedIn (Option.mem_toList.mp now)
    exact ordered.undecided executing ((foretold.member first).mp before).2
  · rw [longer, List.mem_append, foretold.member, decided_step ordered step,
      Option.mem_toList, foretold.executedIn_iff step follows, and_or_left]

variable {final : State Target Worker}

/-- A complete run with fixed outcomes ends like the sequential evaluation of its work list. -/
theorem sequential_of_run {fuel : Nat} {goals : List Target}
    (built : workList rules fuel goals = some work)
    (run : Run (Step rules) (start work) trace final)
    (follows : ∀ taken ∈ trace, Follows outcomes taken) (finished : Finished final) :
    final.state = (evaluate rules outcomes work).state ∧
      (ran rules trace).Perm (evaluate rules outcomes work).ran := by
  obtain ⟨nodup, ordered⟩ := workList_sound built
  have sequential : Evaluated rules outcomes work (evaluate rules outcomes work) :=
    evaluated nodup ordered
  -- Along the run, order and foretelling are kept together.
  have both := @Run.history _ _ _ _ _ _ (fun trace st => (∀ taken ∈ trace, Follows outcomes taken) →
    Ordered rules work st ∧
      Foretold rules outcomes (evaluate rules outcomes work).state trace st) run
    (fun _ => ⟨.start nodup, .start⟩) ?_
  · obtain ⟨ledger, foretold⟩ := both follows
    have set (target : Target) (listed : target ∈ work) : final.state target ≠ 0 :=
      set_of_finished nodup run finished listed
    constructor
    · funext target
      by_cases listed : target ∈ work
      · exact foretold.state target (set target listed)
      · -- A rule outside of the list is never set.
        rw [sequential.outside target listed]
        by_contra nonzero
        exact listed ((ledger.ledger.placed target).mpr (.inr (.inr nonzero)))
    · -- The same targets are executed, each of them once.
      rw [ran_eq follows, sequential.ran]
      refine List.Perm.flatMap_right _ ?_
      refine (List.perm_ext_iff_of_nodup foretold.distinct (nodup.filter _)).mpr fun target => ?_
      rw [foretold.member, List.mem_filter, decide_eq_true_eq, and_comm]
      refine and_congr_left fun _ => ?_
      constructor
      · intro either
        rcases either with known | ⟨worker, newState, at_setting⟩
        · exact (ledger.ledger.placed target).mpr (.inr (.inr known))
        · exact ledger.listed (by rw [at_setting]; rfl)
      · exact fun listed => .inl (set target listed)
  · intro trace before action after told step follows
    obtain ⟨ledger, foretold⟩ := told fun taken member => follows taken (List.mem_append_left _ member)
    refine ⟨ledger.step step, foretold.step ledger sequential.settled step (follows _ ?_)⟩
    exact List.mem_append_right _ (List.mem_singleton_self _)

/--
The result does not depend on the schedule: for the work list that `parmake` builds and fixed
outcomes, two complete runs of any workers end with the same states, have run the same commands
equally often, and agree in both with the sequential evaluation.
-/
theorem schedule_independent {Other : Type*} [DecidableEq Other] {fuel : Nat} {goals : List Target}
    {otherTrace : List (Transition (State Target Other) (Action Target Other))}
    {otherFinal : State Target Other} (built : workList rules fuel goals = some work)
    (run : Run (Step rules) (start work) trace final)
    (follows : ∀ taken ∈ trace, Follows outcomes taken) (finished : Finished final)
    (otherRun : Run (Step rules) (start work) otherTrace otherFinal)
    (otherFollows : ∀ taken ∈ otherTrace, Follows outcomes taken)
    (otherFinished : Finished otherFinal) :
    final.state = otherFinal.state ∧ (ran rules trace).Perm (ran rules otherTrace) ∧
      final.state = (evaluate rules outcomes work).state ∧
      (ran rules trace).Perm (evaluate rules outcomes work).ran := by
  -- Both runs agree with the sequential evaluation, and so with each other.
  obtain ⟨state, commands⟩ := sequential_of_run built run follows finished
  obtain ⟨otherState, otherCommands⟩ := sequential_of_run built otherRun otherFollows otherFinished
  exact ⟨state.trans otherState.symm, commands.trans otherCommands.symm, state, commands⟩

/-- No target is a file, and every command fails. -/
def sampleOutcomes : Outcomes Nat where
  accessible _ := false
  probes _ := []
  results _ := [1]

def sampleGoal : State Nat Unit :=
  { sampleFailed.goto () (.scanned 0 (-1)) with
    allVertexDfs := [0].erase 0
    targetMut := some () }

def sampleSkipped : State Nat Unit := { sampleGoal.goto () (.setting 0 (-1)) with targetMut := none }

def sampleSet : State Nat Unit :=
  { sampleSkipped with
    state := Function.update sampleSkipped.state 0 (-1)
    place := Function.update (fun other => (sampleSkipped.place other).signaled) () .ready }

def sampleExited : State Nat Unit := sampleSet.goto () .exited

/-- The steps after the failure: the goal fails without its command, and the worker exits. -/
def sampleRest : List (Transition (State Nat Unit) (Action Nat Unit)) :=
  [⟨sampleFailed, ⟨(), .take 0 (-1)⟩, sampleGoal⟩, ⟨sampleGoal, ⟨(), .skip⟩, sampleSkipped⟩,
    ⟨sampleSkipped, ⟨(), .setState⟩, sampleSet⟩, ⟨sampleSet, ⟨(), .exit⟩, sampleExited⟩]

theorem complete_run :
    Run (Step sampleRules) (start [1, 0]) (sampleTrace ++ sampleRest) sampleExited := by
  -- The one worker does all steps.
  have take : Step sampleRules sampleFailed ⟨(), .take 0 (-1)⟩ sampleGoal := .take rfl rfl rfl
  have skip : Step sampleRules sampleGoal ⟨(), .skip⟩ sampleSkipped := .skip rfl (by decide)
  have set : Step sampleRules sampleSkipped ⟨(), .setState⟩ sampleSet := .setState rfl
  have exit : Step sampleRules sampleSet ⟨(), .exit⟩ sampleExited := .exit rfl rfl rfl
  exact (((sample_run.next take).next skip).next set).next exit

/-- The complete run ends like the sequential evaluation, which runs one command. -/
theorem schedule_independent_sample :
    sampleExited.state = (evaluate sampleRules sampleOutcomes [1, 0]).state ∧
      (ran sampleRules (sampleTrace ++ sampleRest)).Perm [(1, "build")] := by
  have built : workList sampleRules 3 [0] = some [1, 0] := by decide
  -- The file check and the command answer as the outcomes say.
  have follows : ∀ taken ∈ sampleTrace ++ sampleRest, Follows sampleOutcomes taken := by
    intro taken member
    simp only [sampleTrace, sampleRest, List.cons_append, List.nil_append, List.mem_cons,
      List.not_mem_nil, or_false] at member
    rcases member with rfl | rfl | rfl | rfl | rfl | rfl | rfl | rfl
    · trivial
    · exact ⟨rfl, rfl⟩
    · rfl
    all_goals trivial
  have finished : Finished sampleExited := ⟨⟨()⟩, fun _ => rfl⟩
  obtain ⟨_, _, states, commands⟩ :=
    schedule_independent built complete_run follows finished complete_run follows finished
  exact ⟨states, commands⟩

end SystemProgramming.ParallelMake
