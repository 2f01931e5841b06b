import SystemProgramming.ParallelMake.Worker

/-! Every rule is handed out once, and its commands run only after all of its dependencies. -/

namespace SystemProgramming.ParallelMake

open Foundations

variable {Target Worker : Type*} {rules : Rules Target} {state state' : Target → Int}
  {target other : Target} {verdict : Int} {list work : List Target}

/-- All dependencies of a target are in state 1. -/
def AllGood (rules : Rules Target) (state : Target → Int) (target : Target) : Prop :=
  ∀ dependency ∈ rules.dependencies target, state dependency = 1

/-- When only three states occur, a check that ends with 1 has seen nothing but 1. -/
theorem checkDependencies_good (known : ∀ other, state other = 0 ∨ state other = -1 ∨ state other = 1)
    (good : checkDependencies state list = 1) : ∀ dependency ∈ list, state dependency = 1 := by
  induction list with
  | nil => simp
  | cons first rest ih =>
    rw [checkDependencies] at good
    split at good
    · cases good
    · split at good
      · cases good
      · -- The first dependency is neither failed nor unfinished.
        rename_i alive finished
        intro dependency member
        rcases List.mem_cons.mp member with rfl | later
        · have := known dependency
          omega
        · exact ih good dependency later

/-- A check ends with one of three answers. -/
theorem checkDependencies_range (state : Target → Int) (list : List Target) :
    checkDependencies state list = 0 ∨ checkDependencies state list = -1 ∨
      checkDependencies state list = 1 := by
  -- Each round ends the check with 0 or -1, or goes on.
  induction list with
  | nil => exact .inr (.inr rfl)
  | cons first rest ih =>
    rw [checkDependencies]
    split
    · exact .inr (.inl rfl)
    · split
      · exact .inl rfl
      · exact ih

/-- A check ends with 0 only at a dependency that has not finished. -/
theorem checkDependencies_zero (undecided : checkDependencies state list = 0) :
    ∃ dependency ∈ list, state dependency = 0 := by
  induction list with
  | nil => cases undecided
  | cons first rest ih =>
    rw [checkDependencies] at undecided
    split at undecided
    · cases undecided
    · split at undecided
      · -- The check stops at the first dependency that has not finished.
        rename_i unfinished
        exact ⟨first, List.mem_cons_self, unfinished⟩
      · obtain ⟨dependency, member, unfinished⟩ := ih undecided
        exact ⟨dependency, List.mem_cons_of_mem _ member, unfinished⟩

/-- A scan takes a target of the list, with the answer of its check. -/
theorem scan_some (found : scan rules state list = some (target, verdict)) :
    target ∈ list ∧ verdict ≠ 0 ∧
      verdict = checkDependencies state (rules.dependencies target) := by
  induction list with
  | nil => cases found
  | cons first rest ih =>
    rw [scan] at found
    split at found
    · -- The scan takes the first target whose check is decided.
      rename_i decided
      obtain ⟨rfl, rfl⟩ := Prod.mk.inj (Option.some.inj found)
      exact ⟨List.mem_cons_self, decided, rfl⟩
    · obtain ⟨member, rest⟩ := ih found
      exact ⟨List.mem_cons_of_mem _ member, rest⟩

/-- A scan that finds nothing has left no target of the list out. -/
theorem scan_none (missed : scan rules state list = none) :
    ∀ target ∈ list, checkDependencies state (rules.dependencies target) = 0 := by
  induction list with
  | nil => simp
  | cons first rest ih =>
    rw [scan] at missed
    split at missed
    · cases missed
    · -- The scan goes on only behind an undecided target.
      rename_i undecided
      intro target member
      rcases List.mem_cons.mp member with rfl | later
      · exact not_not.mp undecided
      · exact ih missed target later

/-- Running the commands of a rule ends in one of two states. -/
theorem executeCommands_range (results : List Int) :
    executeCommands results = -1 ∨ executeCommands results = 1 := by
  -- The first command that fails ends the loop.
  induction results with
  | nil => exact .inr rfl
  | cons result rest ih =>
    rw [executeCommands]
    split
    · exact .inl rfl
    · exact ih

/-- So does a file check that does not ask for the commands. -/
theorem checkFileDependencies_range (accessible : Bool) (probes : List Probe) :
    checkFileDependencies accessible probes = 0 ∨ checkFileDependencies accessible probes = -1 ∨
      checkFileDependencies accessible probes = 1 := by
  -- The loop over the times goes on, finds a newer file, or fails.
  have times : checkTimes probes = 0 ∨ checkTimes probes = -1 ∨ checkTimes probes = 1 := by
    induction probes with
    | nil => exact .inl rfl
    | cons probe rest ih =>
      rw [checkTimes]
      split
      · exact ih
      · split
        · split
          · exact .inr (.inr rfl)
          · exact ih
        · exact .inr (.inl rfl)
  rw [checkFileDependencies]
  split
  · exact .inl rfl
  · exact times

/-- Good dependencies stay good while no rule leaves state 1. -/
theorem AllGood.mono (all : AllGood rules state target)
    (stays : ∀ other, state other = 1 → state' other = 1) : AllGood rules state' target :=
  fun dependency member => stays dependency (all dependency member)

/-- What a worker is about to do with its target is backed by the states of the dependencies. -/
def Place.Backed (rules : Rules Target) (state : Target → Int) : Place Target → Prop
  | .scanned target verdict => verdict = -1 ∨ verdict = 1 ∧ AllGood rules state target
  | .executing target => AllGood rules state target
  | .setting target newState => newState = -1 ∨ newState = 1 ∧ AllGood rules state target
  | _ => True

/-- What is backed stays so while no rule leaves state 1. -/
theorem Place.Backed.mono {place : Place Target} (backed : place.Backed rules state)
    (stays : ∀ other, state other = 1 → state' other = 1) : place.Backed rules state' := by
  -- A failed verdict needs no dependencies, and a good one keeps them.
  cases place with
  | scanned target verdict => exact backed.imp_right (And.imp_right (·.mono stays))
  | executing target => exact AllGood.mono backed stays
  | setting target newState => exact backed.imp_right (And.imp_right (·.mono stays))
  | _ => trivial

/-- The waiting targets, the targets that workers have, and the targets whose state was set. -/
def ledgerOf (st : State Target Worker) : Ledger Target Worker where
  waiting := st.allVertexDfs
  held worker := (st.place worker).target
  settled target := st.state target ≠ 0

/-- What holds in every state: each target is in one place, and what is known about it is backed. -/
structure Ordered (rules : Rules Target) (work : List Target) (st : State Target Worker) : Prop where
  ledger : (ledgerOf st).Sound work
  backed : ∀ worker, (st.place worker).Backed rules st.state
  known : ∀ target, st.state target = 0 ∨ st.state target = -1 ∨
    st.state target = 1 ∧ AllGood rules st.state target

section Places

variable [DecidableEq Worker] {places : Worker → Place Target} {worker : Worker} {place : Place Target}

/-- The targets of the workers when one of them moves. -/
theorem targets_update : (fun other => (Function.update places worker place other).target) =
    Function.update (fun other => (places other).target) worker place.target := by
  -- The moved worker has a new target, or none, and the others keep theirs.
  funext other
  rw [Function.update_apply, Function.update_apply]
  split <;> rfl

/-- The targets of the workers when one of them moves and keeps its own. -/
theorem targets_update_same (same : place.target = (places worker).target) :
    (fun other => (Function.update places worker place other).target) =
      fun other => (places other).target := by
  rw [targets_update, same]
  exact Function.update_eq_self _ _

/-- A broadcast takes no target from anyone. -/
@[simp] theorem target_signaled (place : Place Target) : place.signaled.target = place.target := by
  cases place <;> rfl

/-- A broadcast only brings workers to the place where they are woken. -/
theorem eq_of_signaled {after : Place Target} (signaled : place.signaled = after)
    (asleep : after ≠ .woken) : place = after := by
  -- Only a parked worker is moved, and it is woken.
  cases place with
  | parked => exact absurd signaled.symm asleep
  | _ => exact signaled

/-- A move to a backed place leaves everyone backed. -/
theorem backed_update (backed : ∀ other, (places other).Backed rules state)
    (new : place.Backed rules state) (other : Worker) :
    (Function.update places worker place other).Backed rules state := by
  -- The moved worker is backed by assumption, and the others as before.
  rw [Function.update_apply]
  split
  · exact new
  · exact backed other

/-- A broadcast leaves everyone backed. -/
theorem backed_signaled (backed : place.Backed rules state) : place.signaled.Backed rules state := by
  cases place <;> exact backed

end Places

variable {st st' : State Target Worker} {worker : Worker} {action : Action Target Worker}

/-- What is backed is not in state 0 when it is set. -/
theorem Ordered.newState (ordered : Ordered rules work st) {newState : Int}
    (at_setting : st.place worker = .setting target newState) :
    newState = -1 ∨ newState = 1 ∧ AllGood rules st.state target := by
  have backed := ordered.backed worker
  rw [at_setting] at backed
  exact backed

/-- At first nothing is known, and all targets are waiting. -/
theorem Ordered.start (nodup : work.Nodup) :
    Ordered rules work (start work : State Target Worker) where
  ledger := by
    -- The ledger of the start has everything waiting.
    have empty : ledgerOf (ParallelMake.start work : State Target Worker) =
        ⟨work, fun _ => none, fun _ => False⟩ := by
      simp [ledgerOf, ParallelMake.start, Place.target]
    rw [empty]
    exact .start nodup
  backed _ := trivial
  known _ := .inl rfl

variable [DecidableEq Target] [DecidableEq Worker]

/-- Every step moves at most one target forward. -/
theorem Ordered.move (ordered : Ordered rules work st) (step : Step rules st action st') :
    Ledger.Move (ledgerOf st) (ledgerOf st') := by
  -- A worker that keeps its target, or its lack of one, does not move any target.
  have keep {place : Place Target} {worker : Worker} {lock : Option Worker}
      (same : place.target = (st.place worker).target) :
      Ledger.Move (ledgerOf st) (ledgerOf { st.goto worker place with targetMut := lock }) := by
    have unmoved : ledgerOf { st.goto worker place with targetMut := lock } = ledgerOf st := by
      simp only [ledgerOf, State.goto, targets_update_same same]
    rw [unmoved]
    exact .keep
  cases step with
  | exit ready => exact keep (by rw [ready]; rfl)
  -- The target leaves the list for the worker that found it.
  | @take worker target verdict ready _ found =>
    have held : (ledgerOf st).held worker = none := by
      simp only [ledgerOf, ready]
      rfl
    have taken := Ledger.Move.take held (scan_some found).1
    simp only [ledgerOf, State.goto, targets_update] at taken ⊢
    exact taken
  | miss ready => exact keep (by rw [ready]; rfl)
  | park missed => exact keep (by rw [missed]; rfl)
  | check scanned =>
    refine keep ?_
    rw [scanned]
    split <;> rfl
  | skip scanned => exact keep (by rw [scanned]; rfl)
  | execute executing => exact keep (by rw [executing]; rfl)
  -- The target leaves the worker when its state is set.
  | @setState worker target newState at_setting =>
    have held : (ledgerOf st).held worker = some target := by
      simp only [ledgerOf, at_setting]
      rfl
    -- What is set is a final state.
    have nonzero : newState ≠ 0 := by
      rcases ordered.newState at_setting with failed | ⟨good, _⟩ <;> omega
    have settled : (fun other => Function.update st.state target newState other ≠ 0) =
        fun other => other = target ∨ st.state other ≠ 0 := by
      funext other
      rw [Function.update_apply]
      split
      · rename_i same
        simp [same, nonzero]
      · rename_i different
        simp [different]
    have done := Ledger.Move.settle held
    simp only [ledgerOf, targets_update, target_signaled, settled] at done ⊢
    exact done
  | wake woken => exact keep (by rw [woken]; rfl)
  | spurious parked => exact keep (by rw [parked]; rfl)

/-- A rule whose state was set keeps it. -/
theorem Ordered.final (ordered : Ordered rules work st) (step : Step rules st action st')
    (set : st.state target ≠ 0) : st'.state target = st.state target := by
  cases step with
  | @setState worker other newState at_setting =>
    refine Function.update_of_ne ?_ _ _
    intro same
    subst same
    -- The worker holds the target that it sets, so the state of that one is open.
    have held : (ledgerOf st).held worker = some target := by
      simp only [ledgerOf, at_setting]
      rfl
    exact ordered.ledger.held_open target worker held set
  | _ => rfl

/-- Every step keeps targets in one place each, and what is known about them backed. -/
theorem Ordered.step (ordered : Ordered rules work st) (step : Step rules st action st') :
    Ordered rules work st' := by
  have ledger := ordered.ledger.move (ordered.move step)
  -- No rule leaves state 1, so what was backed stays so.
  have stays (other : Target) (good : st.state other = 1) : st'.state other = 1 :=
    (ordered.final step (by omega)).trans good
  cases step with
  | exit => exact ⟨ledger, backed_update ordered.backed trivial, ordered.known⟩
  | @take worker target verdict _ _ found =>
    obtain ⟨_, decided, answer⟩ := scan_some found
    -- The scan has seen three states only.
    have known (other : Target) : st.state other = 0 ∨ st.state other = -1 ∨ st.state other = 1 := by
      rcases ordered.known other with zero | failed | ⟨good, _⟩ <;> omega
    -- The verdict says what the check has seen.
    refine ⟨ledger, backed_update ordered.backed ?_, ordered.known⟩
    rcases checkDependencies_range st.state (rules.dependencies target) with zero | failed | good
    · exact absurd (answer.trans zero) decided
    · exact .inl (answer.trans failed)
    · exact .inr ⟨answer.trans good, checkDependencies_good known good⟩
  | miss => exact ⟨ledger, backed_update ordered.backed trivial, ordered.known⟩
  | park => exact ⟨ledger, backed_update ordered.backed trivial, ordered.known⟩
  | @check worker target accessible probes scanned =>
    have backed := ordered.backed worker
    rw [scanned] at backed
    -- The verdict was 1, so the dependencies are good.
    have good : AllGood rules st.state target := by
      rcases backed with impossible | ⟨_, good⟩
      · cases impossible
      · exact good
    refine ⟨ledger, backed_update ordered.backed ?_, ordered.known⟩
    split
    · exact good
    · rename_i finished
      rcases checkFileDependencies_range accessible probes with zero | failed | current
      · exact absurd zero finished
      · exact .inl failed
      · exact .inr ⟨current, good⟩
  -- A verdict other than 1 is -1.
  | @skip worker target verdict scanned other =>
    have backed := ordered.backed worker
    rw [scanned] at backed
    refine ⟨ledger, backed_update ordered.backed ?_, ordered.known⟩
    exact .inl (backed.resolve_right fun good => other good.1)
  -- The commands were started with good dependencies.
  | @execute worker target results executing =>
    have backed := ordered.backed worker
    rw [executing] at backed
    refine ⟨ledger, backed_update ordered.backed ?_, ordered.known⟩
    exact (executeCommands_range results).imp_right fun good => ⟨good, backed⟩
  | @setState worker target newState at_setting =>
    refine ⟨ledger, backed_update (fun other => ?_) trivial, fun other => ?_⟩
    · exact backed_signaled ((ordered.backed other).mono stays)
    · -- The state that was set was backed, and everything known before is still known.
      simp only [Function.update_apply]
      split
      · rename_i same
        rw [same]
        exact .inr ((ordered.newState at_setting).imp_right (And.imp_right (·.mono stays)))
      · exact (ordered.known other).imp_right (Or.imp_right (And.imp_right (·.mono stays)))
  | wake => exact ⟨ledger, backed_update ordered.backed trivial, ordered.known⟩
  | spurious => exact ⟨ledger, backed_update ordered.backed trivial, ordered.known⟩

/-- The target that an event takes from the list. -/
def Event.taken : Event Target → Option Target
  | .take target _ => some target
  | _ => none

/-- How often a target is taken from the list, by any worker. -/
def takes (target : Target)
    (trace : List (Transition (State Target Worker) (Action Target Worker))) : Nat :=
  trace.countP fun taken => taken.action.event.taken = some target

/-- How often the state of a rule leaves 0. -/
def leaves (target : Target)
    (trace : List (Transition (State Target Worker) (Action Target Worker))) : Nat :=
  trace.countP fun taken => taken.before.state target = 0 ∧ taken.after.state target ≠ 0

/-- A step in which a worker starts the commands of a rule. -/
def Starts (target : Target)
    (taken : Transition (State Target Worker) (Action Target Worker)) : Prop :=
  ∃ worker, taken.before.place worker ≠ .executing target ∧
    taken.after.place worker = .executing target

variable {trace : List (Transition (State Target Worker) (Action Target Worker))}
  {final : State Target Worker}

/-- In every run, each target is in one place, and what is known about it is backed. -/
theorem ordered_of_run (nodup : work.Nodup) (run : Run (Step rules) (start work) trace final) :
    Ordered rules work final :=
  run.invariant (.start nodup) fun _ _ _ ordered step => ordered.step step

/-- A target is taken as often as it left the list. -/
theorem takes_add_count (run : Run (Step rules) (start work) trace final) (target : Target) :
    takes target trace + final.allVertexDfs.count target = work.count target := by
  refine @Run.history _ _ _ _ _ _ (fun trace st =>
    takes target trace + st.allVertexDfs.count target = work.count target) run ?_ ?_
  · exact Nat.zero_add _
  · -- Each take erases one occurrence from the list.
    intro trace before action after counted step
    rw [takes, List.countP_append, ← takes, List.countP_singleton]
    cases step with
    | @take worker other verdict _ _ found =>
      have member := (scan_some found).1
      -- The taken target is the one that is counted, or another one.
      by_cases same : other = target
      · subst same
        have listed := List.count_pos_iff.mpr member
        simp only [Event.taken, decide_true, if_true, List.count_erase_self]
        omega
      · simpa [Event.taken, same, List.count_erase_of_ne (Ne.symm same)] using counted
    | _ => simpa [Event.taken, State.goto] using counted

/-- The state of a rule has left 0 once when it is set, and never before. -/
theorem leaves_eq (nodup : work.Nodup) (run : Run (Step rules) (start work) trace final)
    (target : Target) : leaves target trace = if final.state target = 0 then 0 else 1 := by
  have both := @Run.history _ _ _ _ _ _ (fun trace st => Ordered rules work st ∧
    leaves target trace = if st.state target = 0 then 0 else 1) run ⟨.start nodup, rfl⟩ ?_
  · exact both.2
  · -- A step counts exactly if it sets the state for the first time.
    intro trace before action after invariant step
    obtain ⟨ordered, counted⟩ := invariant
    refine ⟨ordered.step step, ?_⟩
    rw [leaves, List.countP_append, ← leaves, List.countP_singleton, counted]
    by_cases zero : before.state target = 0
    · by_cases still : after.state target = 0 <;> simp [zero, still]
    · -- A state that was set is not set again.
      have kept := ordered.final step zero
      simp [zero, kept]

/-- Commands start only with all dependencies in state 1. -/
theorem Ordered.starts (ordered : Ordered rules work st) (step : Step rules st action st')
    (starts : Starts target ⟨st, action, st'⟩) : AllGood rules st.state target := by
  obtain ⟨other, idle, executing⟩ := starts
  -- Only the end of a file check brings a worker to the commands.
  have moved {worker : Worker} {place : Place Target}
      (now : Function.update st.place worker place other = .executing target) :
      other = worker ∧ place = .executing target := by
    rw [Function.update_apply] at now
    split at now
    · rename_i same
      exact ⟨same, now⟩
    · exact absurd now idle
  cases step with
  | @check worker taken accessible probes scanned =>
    obtain ⟨rfl, placed⟩ := moved executing
    -- The worker goes on to the commands only after the check has asked for them.
    split at placed
    · obtain rfl := Place.executing.inj placed
      have backed := ordered.backed other
      rw [scanned] at backed
      rcases backed with impossible | ⟨_, good⟩
      · cases impossible
      · exact good
    · cases placed
  | setState =>
    simp only [Function.update_apply] at executing
    split at executing
    · cases executing
    · exact absurd (eq_of_signaled executing (by simp)) idle
  | exit => cases (moved executing).2
  | take => cases (moved executing).2
  | miss => cases (moved executing).2
  | park => cases (moved executing).2
  | skip => cases (moved executing).2
  | execute => cases (moved executing).2
  | wake => cases (moved executing).2
  | spurious => cases (moved executing).2

/-- The workers have exited, and there is at least one. -/
def Finished (st : State Target Worker) : Prop :=
  Nonempty Worker ∧ ∀ worker, st.place worker = .exited

/-- A worker exits only when the list is empty. -/
theorem list_of_exited (run : Run (Step rules) (start work) trace final)
    (exited : final.place worker = .exited) : final.allVertexDfs = [] := by
  refine @Run.invariant _ _ _ _ _ _ (fun st =>
    ∀ worker, st.place worker = .exited → st.allVertexDfs = []) run nofun ?_ worker exited
  intro before action after emptied step other exited
  -- A worker that has not just exited had exited before.
  have moved {worker : Worker} {place : Place Target}
      (now : Function.update before.place worker place other = .exited) (away : place ≠ .exited) :
      before.allVertexDfs = [] := by
    rw [Function.update_apply] at now
    split at now
    · exact absurd now away
    · exact emptied other now
  cases step with
  | exit _ _ empty => exact empty
  | take =>
    -- Taking a target from an empty list leaves it empty.
    have empty := moved exited (by simp)
    exact List.eq_nil_of_subset_nil (empty ▸ List.erase_subset)
  | check =>
    refine moved exited ?_
    split <;> simp
  | setState =>
    simp only [Function.update_apply] at exited
    split at exited
    · cases exited
    · exact emptied other (eq_of_signaled exited (by simp))
  | miss => exact moved exited (by simp)
  | park => exact moved exited (by simp)
  | skip => exact moved exited (by simp)
  | execute => exact moved exited (by simp)
  | wake => exact moved exited (by simp)
  | spurious => exact moved exited (by simp)

/-- A state that was set in a run is still there at its end. -/
theorem state_kept (nodup : work.Nodup) (run : Run (Step rules) (start work) trace final) :
    ∀ taken ∈ trace, taken.before.state target ≠ 0 →
      final.state target = taken.before.state target := by
  have both := @Run.history _ _ _ _ _ _ (fun trace st => Ordered rules work st ∧
    ∀ taken ∈ trace, taken.before.state target ≠ 0 →
      st.state target = taken.before.state target) run ⟨.start nodup, nofun⟩ ?_
  · exact both.2
  · -- What was set is kept by the new step too.
    intro trace before action after invariant step
    obtain ⟨ordered, kept⟩ := invariant
    refine ⟨ordered.step step, fun taken member set => ?_⟩
    rcases List.mem_append.mp member with old | new
    · have now := kept taken old set
      rw [ordered.final step (by rw [now]; exact set), now]
    · rw [List.mem_singleton.mp new] at set ⊢
      exact ordered.final step set

/-- When all workers have exited, the state of every rule of the work list was set. -/
theorem set_of_finished (nodup : work.Nodup) (run : Run (Step rules) (start work) trace final)
    (finished : Finished final) (listed : target ∈ work) : final.state target ≠ 0 := by
  obtain ⟨⟨worker⟩, exited⟩ := finished
  have ordered := ordered_of_run nodup run
  -- A listed target waits, or is held, or was set; the first two are over.
  rcases (ordered.ledger.placed target).mp listed with waits | ⟨other, held⟩ | set
  · have empty : (ledgerOf final).waiting = [] := list_of_exited run (exited worker)
    rw [empty] at waits
    cases waits
  · simp only [ledgerOf, exited other, Place.target] at held
    cases held
  · exact set

/--
In every run each rule is taken at most once; commands start only when all dependencies are in
state 1; a rule with a failed dependency never starts and ends in state -1; and the state of a
rule leaves 0 at most once, and exactly once by the time the workers have exited.
-/
theorem dependencies_respected (nodup : work.Nodup)
    (run : Run (Step rules) (start work) trace final) :
    (∀ target, takes target trace ≤ 1) ∧
      (∀ taken ∈ trace, ∀ target, Starts target taken →
        AllGood rules taken.before.state target) ∧
      (∀ target, ∀ dependency ∈ rules.dependencies target, final.state dependency = -1 →
        (∀ taken ∈ trace, ¬ Starts target taken) ∧
          (target ∈ work → Finished final → final.state target = -1)) ∧
      (∀ target, leaves target trace ≤ 1) ∧
      (Finished final → ∀ target ∈ work, leaves target trace = 1) := by
  -- A step of the run is taken from a state that the run reaches.
  have good (taken) (member : taken ∈ trace) (target : Target) (starts : Starts target taken) :
      AllGood rules taken.before.state target := by
    obtain ⟨step, _, reached⟩ := run.split_at member
    exact (ordered_of_run nodup reached).starts step starts
  refine ⟨fun target => ?_, good, fun target dependency member failed => ⟨?_, ?_⟩, fun target => ?_,
    fun finished target listed => ?_⟩
  · -- A target is once in the work list.
    have counted := takes_add_count run target
    have single := List.nodup_iff_count_le_one.mp nodup target
    omega
  · -- A dependency that was good when the commands started would still be good.
    intro taken inside starts
    have one := good taken inside target starts dependency member
    have kept := state_kept nodup run taken inside (by rw [one]; decide)
    rw [failed, one] at kept
    cases kept
  · -- A good end would need good dependencies.
    intro listed finished
    have set := set_of_finished nodup run finished listed
    rcases (ordered_of_run nodup run).known target with zero | ended | ⟨_, all⟩
    · exact absurd zero set
    · exact ended
    · have one := all dependency member
      rw [failed] at one
      cases one
  · rw [leaves_eq nodup run]
    split <;> decide
  · rw [leaves_eq nodup run, if_neg (set_of_finished nodup run finished listed)]

/-- A goal that depends on one other target, with one command each. -/
def sampleRules : Rules Nat where
  dependencies target := if target = 0 then [1] else []
  commands _ := ["build"]

def sampleStart : State Nat Unit := start [1, 0]

def sampleTaken : State Nat Unit :=
  { sampleStart.goto () (.scanned 1 1) with
    allVertexDfs := [1, 0].erase 1
    targetMut := some () }

def sampleExecuting : State Nat Unit := { sampleTaken.goto () (.executing 1) with targetMut := none }

def sampleSetting : State Nat Unit := sampleExecuting.goto () (.setting 1 (-1))

/-- The dependency failed, and the worker looks at the list again. -/
def sampleFailed : State Nat Unit :=
  { sampleSetting with
    state := Function.update sampleSetting.state 1 (-1)
    place := Function.update (fun other => (sampleSetting.place other).signaled) () .ready }

/-- One worker takes the dependency, is told that it is no file, and its command fails. -/
def sampleTrace : List (Transition (State Nat Unit) (Action Nat Unit)) :=
  [⟨sampleStart, ⟨(), .take 1 1⟩, sampleTaken⟩, ⟨sampleTaken, ⟨(), .check false []⟩, sampleExecuting⟩,
    ⟨sampleExecuting, ⟨(), .execute [1]⟩, sampleSetting⟩,
    ⟨sampleSetting, ⟨(), .setState⟩, sampleFailed⟩]

theorem sample_run : Run (Step sampleRules) (start [1, 0]) sampleTrace sampleFailed := by
  have take : Step sampleRules sampleStart ⟨(), .take 1 1⟩ sampleTaken := .take rfl rfl rfl
  have check : Step sampleRules sampleTaken ⟨(), .check false []⟩ sampleExecuting :=
    .check rfl rfl
  have execute : Step sampleRules sampleExecuting ⟨(), .execute [1]⟩ sampleSetting :=
    .execute rfl rfl
  have set : Step sampleRules sampleSetting ⟨(), .setState⟩ sampleFailed := .setState rfl
  exact (((Run.start.next take).next check).next execute).next set

/-- The dependency is taken once, and the commands of the goal never start. -/
theorem dependencies_respected_sample :
    takes 1 sampleTrace ≤ 1 ∧ (∀ taken ∈ sampleTrace, ¬ Starts 0 taken) ∧
      leaves 1 sampleTrace ≤ 1 := by
  -- The goal depends on the target that has failed.
  obtain ⟨once, _, failed, left, _⟩ := dependencies_respected (by decide) sample_run
  exact ⟨once 1, (failed 0 1 (by decide) (by decide)).1, left 1⟩

end SystemProgramming.ParallelMake
