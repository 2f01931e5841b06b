import SystemProgramming.ParallelMake.WorkList

/-! The sequential evaluation of a work list, one rule after the other. -/

namespace SystemProgramming.ParallelMake

open Foundations

/-- What the file system and the commands of each rule answer, once its dependencies are final. -/
structure Outcomes (Target : Type*) where
  accessible : Target → Bool
  probes : Target → List Probe
  results : Target → List Int

section Functions

variable {Target : Type*}

/-- The commands that `execute_commands` runs: up to the first one that fails. -/
def ranCommands : List String → List Int → List String
  | command :: commands, result :: results =>
    -- The command that fails is the last one that is run.
    command :: if result ≠ 0 then [] else ranCommands commands results
  | _, _ => []

/-- The answer of the file check of a rule. -/
def Outcomes.file (outcomes : Outcomes Target) (target : Target) : Int :=
  checkFileDependencies (outcomes.accessible target) (outcomes.probes target)

/-- The state that a rule reaches when all of its dependencies are good. -/
def Outcomes.newState (outcomes : Outcomes Target) (target : Target) : Int :=
  -- A file that is up to date, or missing, decides without the commands.
  if outcomes.file target = 0 then executeCommands (outcomes.results target)
  else outcomes.file target

/-- The commands that are run for a rule, with their target. -/
def Outcomes.commands (outcomes : Outcomes Target) (rules : Rules Target) (target : Target) :
    List (Target × String) :=
  (ranCommands (rules.commands target) (outcomes.results target)).map (target, ·)

/-- The states of the rules and the commands that were run. -/
structure Evaluation (Target : Type*) where
  state : Target → Int
  ran : List (Target × String)

/-- Evaluating the next rule of the list, with nobody else at work. -/
def evaluateNext [DecidableEq Target] (rules : Rules Target) (outcomes : Outcomes Target)
    (done : Evaluation Target) (target : Target) : Evaluation Target :=
  -- The dependencies come first in the list, so their states are final.
  let verdict := checkDependencies done.state (rules.dependencies target)
  if verdict = 1 then
    { state := Function.update done.state target (outcomes.newState target)
      ran := done.ran ++ if outcomes.file target = 0 then outcomes.commands rules target else [] }
  else { done with state := Function.update done.state target verdict }

/-- The sequential evaluation of a work list, from the front. -/
def evaluate [DecidableEq Target] (rules : Rules Target) (outcomes : Outcomes Target)
    (work : List Target) : Evaluation Target :=
  work.foldl (evaluateNext rules outcomes) ⟨fun _ => 0, []⟩

end Functions

variable {Target : Type*} {rules : Rules Target} {outcomes : Outcomes Target}
  {state : Target → Int} {list work : List Target} {target : Target}

instance decidableAllGood (rules : Rules Target) (state : Target → Int) (target : Target) :
    Decidable (AllGood rules state target) :=
  inferInstanceAs (Decidable (∀ dependency ∈ rules.dependencies target, state dependency = 1))

/-- A rule whose commands are run, as far as the final states tell. -/
def Runs (rules : Rules Target) (outcomes : Outcomes Target) (state : Target → Int)
    (target : Target) : Prop := AllGood rules state target ∧ outcomes.file target = 0

instance decidableRuns (rules : Rules Target) (outcomes : Outcomes Target) (state : Target → Int)
    (target : Target) : Decidable (Runs rules outcomes state target) :=
  inferInstanceAs (Decidable (_ ∧ _))

/-- A failed check has seen a failed dependency. -/
theorem checkDependencies_failed (failed : checkDependencies state list = -1) :
    ∃ dependency ∈ list, state dependency = -1 := by
  induction list with
  | nil => cases failed
  | cons first rest ih =>
    rw [checkDependencies] at failed
    split at failed
    · -- The check stops at the first dependency that has failed.
      rename_i bad
      exact ⟨first, List.mem_cons_self, bad⟩
    · split at failed
      · cases failed
      · obtain ⟨dependency, member, bad⟩ := ih failed
        exact ⟨dependency, List.mem_cons_of_mem _ member, bad⟩

/-- A rule ends in one of two states. -/
theorem Outcomes.newState_range (outcomes : Outcomes Target) (target : Target) :
    outcomes.newState target = -1 ∨ outcomes.newState target = 1 := by
  rw [newState]
  split
  · exact executeCommands_range _
  · -- The file check did not ask for the commands, so it is decided.
    rename_i finished
    have range := checkFileDependencies_range (outcomes.accessible target) (outcomes.probes target)
    rw [← Outcomes.file] at range
    exact range.resolve_left finished

/-- The states of rules that follow from the states of their dependencies. -/
def Settled (rules : Rules Target) (outcomes : Outcomes Target) (state : Target → Int)
    (target : Target) : Prop :=
  state target = if AllGood rules state target then outcomes.newState target else -1

/-- A settled rule is in one of two states. -/
theorem Settled.range (settled : Settled rules outcomes state target) :
    state target = -1 ∨ state target = 1 := by
  -- A rule with a bad dependency fails, and the others end as their outcomes say.
  rw [Settled] at settled
  rw [settled]
  split
  · exact outcomes.newState_range target
  · exact .inl rfl

variable [DecidableEq Target]

/-- What the sequential evaluation of a list leaves behind. -/
structure Evaluated (rules : Rules Target) (outcomes : Outcomes Target) (work : List Target)
    (done : Evaluation Target) : Prop where
  outside : ∀ target, target ∉ work → done.state target = 0
  settled : ∀ target ∈ work, Settled rules outcomes done.state target
  ran : done.ran = (work.filter (Runs rules outcomes done.state)).flatMap (outcomes.commands rules)

/-- Whether the dependencies of a rule are good does not depend on the state of another one. -/
theorem allGood_update {state : Target → Int} {newState : Int} {other : Target} (new : target ∉ work)
    (inside : ∀ dependency ∈ rules.dependencies other, dependency ∈ work) :
    AllGood rules (Function.update state target newState) other ↔ AllGood rules state other := by
  refine forall₂_congr fun dependency needed => ?_
  have different : dependency ≠ target := by
    intro same
    subst same
    exact new (inside dependency needed)
  rw [Function.update_of_ne different]

/-- The check tells good dependencies from bad ones, since none is undecided. -/
theorem Evaluated.verdict {done : Evaluation Target} (evaluated : Evaluated rules outcomes work done)
    (known : ∀ dependency ∈ rules.dependencies target, dependency ∈ work) :
    checkDependencies done.state (rules.dependencies target) =
      if AllGood rules done.state target then 1 else -1 := by
  have states (other : Target) :
      done.state other = 0 ∨ done.state other = -1 ∨ done.state other = 1 := by
    by_cases inside : other ∈ work
    · exact .inr (evaluated.settled other inside).range
    · exact .inl (evaluated.outside other inside)
  rcases checkDependencies_range done.state (rules.dependencies target) with zero | failed | good
  · obtain ⟨dependency, needed, unfinished⟩ := checkDependencies_zero zero
    rcases (evaluated.settled dependency (known dependency needed)).range with one | one <;> omega
  · obtain ⟨dependency, needed, bad⟩ := checkDependencies_failed failed
    have notGood : ¬ AllGood rules done.state target := by
      intro good
      have one := good dependency needed
      omega
    rw [failed, if_neg notGood]
  · have all : AllGood rules done.state target := checkDependencies_good states good
    rw [good, if_pos all]

/-- Evaluating one more rule, behind its dependencies, settles it too. -/
theorem Evaluated.next {done : Evaluation Target} (evaluated : Evaluated rules outcomes work done)
    (closed : ∀ other ∈ work, ∀ dependency ∈ rules.dependencies other, dependency ∈ work)
    (known : ∀ dependency ∈ rules.dependencies target, dependency ∈ work) (new : target ∉ work) :
    Evaluated rules outcomes (work ++ [target]) (evaluateNext rules outcomes done target) := by
  -- The dependencies keep their states, so that the same rules have good dependencies.
  have frame {newState : Int} {other : Target}
      (inside : ∀ dependency ∈ rules.dependencies other, dependency ∈ work) :
      AllGood rules (Function.update done.state target newState) other ↔
        AllGood rules done.state other := allGood_update new inside
  -- The step sets what is settled, and runs the commands exactly if they are asked for.
  have shape : evaluateNext rules outcomes done target =
      { state := Function.update done.state target
          (if AllGood rules done.state target then outcomes.newState target else -1)
        ran := done.ran ++
          if Runs rules outcomes done.state target then outcomes.commands rules target else [] } := by
    rw [evaluateNext, evaluated.verdict known]
    by_cases good : AllGood rules done.state target
    · simp [good, Runs]
    · simp [good, Runs]
  rw [shape]
  refine ⟨fun other outside => ?_, fun other inside => ?_, ?_⟩
  · -- What is neither in the list nor the new target is still in state 0.
    rw [List.mem_append, not_or, List.mem_singleton] at outside
    exact (Function.update_of_ne outside.2 _ _).trans (evaluated.outside other outside.1)
  · -- An old target stays settled, and the new one is settled now.
    rcases List.mem_append.mp inside with old | added
    · have different : other ≠ target := fun same => new (same ▸ old)
      simp only [Settled, frame (closed other old), Function.update_of_ne different]
      exact evaluated.settled other old
    · obtain rfl := List.mem_singleton.mp added
      simp only [Settled, frame known, Function.update_self]
  · -- The commands of the old targets are the same, and those of the new one follow.
    have same {newState : Int} {other : Target}
        (inside : ∀ dependency ∈ rules.dependencies other, dependency ∈ work) :
        decide (Runs rules outcomes (Function.update done.state target newState) other) =
          decide (Runs rules outcomes done.state other) :=
      decide_eq_decide.mpr (and_congr_left fun _ => frame inside)
    dsimp only
    rw [List.filter_append, List.filter_congr fun other inside => same (closed other inside),
      List.flatMap_append, evaluated.ran]
    by_cases runs : Runs rules outcomes done.state target
    · simp [runs, same known]
    · simp [runs, same known]

/-- The sequential evaluation of a list in order settles all of its rules. -/
theorem evaluated (nodup : work.Nodup) (ordered : PostOrdered rules work) :
    Evaluated rules outcomes work (evaluate rules outcomes work) := by
  -- The induction adds the last rule of the list, as the evaluation does.
  induction work using List.reverseRecOn with
  | nil => exact ⟨fun _ _ => rfl, nofun, rfl⟩
  | append_singleton front target ih =>
    obtain ⟨distinct, _, apart⟩ := List.nodup_append.mp nodup
    rw [evaluate, List.foldl_append, ← evaluate]
    -- The last rule comes after its dependencies, and is in the list once.
    refine (ih distinct ordered.init).next ordered.init.closed ordered.last ?_
    exact fun member => apart target member target (List.mem_singleton_self target) rfl

end SystemProgramming.ParallelMake
