import SystemProgramming.ParallelMake.Order

/-! Which rules are skipped: what the file check decides, and what a rebuild decision should be. -/

namespace SystemProgramming.ParallelMake

variable {Target Worker : Type*}

/-- Which targets are files, and when each of them was last modified. -/
abbrev Files (Target : Type*) := Target → Option Int

namespace Files

variable (files : Files Target) (rules : Rules Target) (target : Target)

/-- What `access` and `stat` answer about a target and its dependencies. -/
def probes : List Probe :=
  (rules.dependencies target).map fun dependency =>
    ⟨(files target).isSome, files target, files dependency⟩

/-- All dependencies are files, with times that satisfy the condition. -/
def AllDated (list : List Target) (Dated : Int → Prop) : Prop :=
  ∀ dependency ∈ list, ∃ curTime, files dependency = some curTime ∧ Dated curTime

/-- The target is a file, and so are its dependencies, none of which is newer. -/
def UpToDate : Prop :=
  ∃ targetTime, files target = some targetTime ∧
    files.AllDated (rules.dependencies target) (· ≤ targetTime)

/-- The decision may be to run the commands, or to skip those of a target that is up to date. -/
def Decided (place : Place Target) : Prop :=
  place = .executing target ∨ place = .setting target 1 ∧ files.UpToDate rules target

/-- A target that is no file, or whose dependencies are files and all on one side of its time. -/
def Unmixed : Prop :=
  files target = none ∨
    ∃ targetTime, files target = some targetTime ∧
      (files.AllDated (rules.dependencies target) (· ≤ targetTime) ∨
        files.AllDated (rules.dependencies target) (targetTime ≤ ·))

end Files

variable {files : Files Target} {rules : Rules Target} {target : Target} {targetTime : Int}
  {list : List Target}

/-- The loop over the times asks for the commands if no dependency is missing or older. -/
theorem checkTimes_eq_zero : checkTimes (list.map fun dependency =>
      ⟨true, some targetTime, files dependency⟩) = 0 ↔ files.AllDated list (targetTime ≤ ·) := by
  induction list with
  | nil => exact iff_of_true rfl nofun
  | cons first rest ih =>
    rw [List.map_cons, checkTimes, Files.AllDated, List.forall_mem_cons, ← Files.AllDated, ← ih]
    -- The first dependency is missing, or older, or the loop goes on.
    cases found : files first with
    | none => simp
    | some curTime =>
      by_cases older : curTime - targetTime < 0
      · have before : ¬ targetTime ≤ curTime := by omega
        simp [older, before]
      · have behind : targetTime ≤ curTime := by omega
        simp [older, behind]

/-- The loop fails only at a dependency that is no file. -/
theorem checkTimes_failed (failed : checkTimes (list.map fun dependency =>
      ⟨true, some targetTime, files dependency⟩) = -1) : ∃ dependency ∈ list, files dependency = none := by
  induction list with
  | nil => cases failed
  | cons first rest ih =>
    rw [List.map_cons, checkTimes] at failed
    cases found : files first with
    | none => exact ⟨first, List.mem_cons_self, found⟩
    | some curTime =>
      simp only [found, Bool.true_eq_false, if_false] at failed
      split at failed
      · cases failed
      · obtain ⟨dependency, member, missing⟩ := ih failed
        exact ⟨dependency, List.mem_cons_of_mem _ member, missing⟩

/-- The file check asks for the commands of a target that is no file, or that nothing is older than. -/
theorem checkFileDependencies_eq_zero :
    checkFileDependencies (files target).isSome (files.probes rules target) = 0 ↔
      files target = none ∨ ∃ targetTime, files target = some targetTime ∧
        files.AllDated (rules.dependencies target) (targetTime ≤ ·) := by
  rw [checkFileDependencies, Files.probes]
  cases found : files target with
  | none => simp
  | some targetTime => simp [checkTimes_eq_zero]

/-- For a target that is up to date, the file check does not fail. -/
theorem Files.UpToDate.not_failed (upToDate : files.UpToDate rules target) :
    checkFileDependencies (files target).isSome (files.probes rules target) ≠ -1 := by
  obtain ⟨targetTime, found, dated⟩ := upToDate
  rw [checkFileDependencies, Files.probes, found]
  intro failed
  obtain ⟨dependency, member, missing⟩ := checkTimes_failed failed
  -- The dependency that made the check fail would be a file.
  obtain ⟨curTime, exists_, _⟩ := dated dependency member
  rw [missing] at exists_
  cases exists_

/-- What the answer of the file check makes of a rule is a right decision exactly for these. -/
theorem decided_iff :
    files.Decided rules target
        (if checkFileDependencies (files target).isSome (files.probes rules target) = 0 then
          .executing target
        else .setting target
          (checkFileDependencies (files target).isSome (files.probes rules target))) ↔
      files.Unmixed rules target := by
  by_cases zero : checkFileDependencies (files target).isSome (files.probes rules target) = 0
  · -- The commands run, because there is no target, or because no dependency is older.
    rw [if_pos zero]
    refine iff_of_true (.inl rfl) ?_
    exact (checkFileDependencies_eq_zero.mp zero).imp_right
      fun ⟨targetTime, found, dated⟩ => ⟨targetTime, found, .inr dated⟩
  · rw [if_neg zero, Files.Decided]
    have unasked := mt checkFileDependencies_eq_zero.mpr zero
    constructor
    · rintro (impossible | ⟨_, targetTime, found, dated⟩)
      · cases impossible
      · exact .inr ⟨targetTime, found, .inl dated⟩
    · rintro (missing | ⟨targetTime, found, older | newer⟩)
      · exact absurd (.inl missing) unasked
      · -- The target is up to date, so the check has not failed, and the rule is skipped.
        have upToDate : files.UpToDate rules target := ⟨targetTime, found, older⟩
        rcases checkFileDependencies_range (files target).isSome (files.probes rules target) with
          asked | failed | skipped
        · exact absurd asked zero
        · exact absurd failed upToDate.not_failed
        · exact .inr ⟨by rw [skipped], upToDate⟩
      · exact absurd (.inr ⟨targetTime, found, newer⟩) unasked

section Steps

variable [DecidableEq Target] [DecidableEq Worker] {st st' : State Target Worker} {worker : Worker}

/--
The file check of a worker decides rightly, to run the commands or to skip those of a target that
is up to date, exactly if the target is no file, or all of its dependencies are files, and none of
them is newer or none of them is older.
-/
theorem rebuild_decided_iff (scanned : st.place worker = .scanned target 1)
    (step : Step rules st ⟨worker, .check (files target).isSome (files.probes rules target)⟩ st') :
    files.Decided rules target (st'.place worker) ↔ files.Unmixed rules target := by
  cases step with
  | check taken _ =>
    -- The worker checks the target that its scan took.
    rw [scanned] at taken
    obtain ⟨rfl, _⟩ := Place.scanned.inj taken
    simp only [State.goto, Function.update_self]
    exact decided_iff

end Steps

/-- A program that depends on a library, a source file, and a header. -/
def mixedRules : Rules (Fin 4) where
  dependencies target := if target = 0 then [1, 2, 3] else []
  commands _ := ["build"]

/-- The files that exist are those with a time in the list. -/
def datedFiles (times : List Int) : Files (Fin 4) := fun target => times[target.val]?

def mixedScanned : State (Fin 4) Unit where
  state _ := 0
  allVertexDfs := []
  targetMut := some ()
  place _ := .scanned 0 1

/-- The state after the file check of the program. -/
def mixedChecked (files : Files (Fin 4)) : State (Fin 4) Unit :=
  { mixedScanned.goto ()
      (if checkFileDependencies (files 0).isSome (files.probes mixedRules 0) = 0 then .executing 0
        else .setting 0 (checkFileDependencies (files 0).isSome (files.probes mixedRules 0))) with
    targetMut := none }

theorem mixed_step (files : Files (Fin 4)) : Step mixedRules mixedScanned
    ⟨(), .check (files 0).isSome (files.probes mixedRules 0)⟩ (mixedChecked files) :=
  .check rfl (by simp [Files.probes])

/-- Nothing is newer than the program, so that it is right to skip it. -/
theorem rebuild_decided_iff_mixed :
    (datedFiles [10, 5, 5, 5]).Decided mixedRules 0 ((mixedChecked (datedFiles [10, 5, 5, 5])).place ()) ↔
      (datedFiles [10, 5, 5, 5]).Unmixed mixedRules 0 :=
  rebuild_decided_iff rfl (mixed_step _)

/--
With a library that is older than the program and a source file that is newer, the commands are
skipped; and when only the header is missing, the rule fails without them.
-/
theorem rebuild_undecided :
    (∃ st', Step mixedRules mixedScanned ⟨(), .check ((datedFiles [10, 5, 20, 5]) 0).isSome
          ((datedFiles [10, 5, 20, 5]).probes mixedRules 0)⟩ st' ∧
        ¬ (datedFiles [10, 5, 20, 5]).Decided mixedRules 0 (st'.place ())) ∧
      ∃ st', Step mixedRules mixedScanned ⟨(), .check ((datedFiles [10, 20, 20]) 0).isSome
          ((datedFiles [10, 20, 20]).probes mixedRules 0)⟩ st' ∧
        ¬ (datedFiles [10, 20, 20]).Decided mixedRules 0 (st'.place ()) := by
  refine ⟨⟨_, mixed_step _, ?_⟩, _, mixed_step _, ?_⟩
  · -- The library ends the loop before the source file is looked at.
    have skipped : (mixedChecked (datedFiles [10, 5, 20, 5])).place () = .setting 0 1 := by decide
    rw [skipped]
    rintro (impossible | ⟨_, targetTime, found, dated⟩)
    · cases impossible
    · obtain ⟨curTime, newer, before⟩ := dated 2 (by decide)
      cases found
      cases newer
      exact absurd before (by decide)
  · -- The state of the rule is to be set to the failed one.
    have failed : (mixedChecked (datedFiles [10, 20, 20])).place () = .setting 0 (-1) := by decide
    rw [failed]
    rintro (impossible | ⟨impossible, _⟩)
    · cases impossible
    · cases impossible

end SystemProgramming.ParallelMake
