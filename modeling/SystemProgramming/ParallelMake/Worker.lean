import SystemProgramming.Foundations.Ledger
import SystemProgramming.Foundations.Runs

/-! The workers of parallel make: scanning the rules, running commands, and waiting for each other. -/

namespace SystemProgramming.ParallelMake

open Foundations

/-- The rule graph: what each target depends on, and the commands of its rule. -/
structure Rules (Target : Type*) where
  dependencies : Target → List Target
  commands : Target → List String

section Functions

variable {Target : Type*}

/-- A dependency that failed or has not finished decides, in the order of the list. -/
def checkDependencies (state : Target → Int) : List Target → Int
  | [] => 1
  | curTarget :: rest =>
    if state curTarget = -1 then -1
    else if state curTarget = 0 then 0
    else checkDependencies state rest

/-- What the file system answers about a target and one of its dependencies. -/
structure Probe where
  accessible : Bool
  targetTime : Option Int
  curTime : Option Int
  deriving DecidableEq, Repr

/-- The loop of the file check: a failed `stat` fails, and an older dependency ends it. -/
def checkTimes : List Probe → Int
  | [] => 0
  | probe :: rest =>
    if probe.accessible = false then checkTimes rest
    else
      match probe.targetTime, probe.curTime with
      | some targetTime, some curTime => if curTime - targetTime < 0 then 1 else checkTimes rest
      | _, _ => -1

/-- Zero means that the commands have to run, and also that the target is no file. -/
def checkFileDependencies (accessible : Bool) (probes : List Probe) : Int :=
  if accessible = false then 0 else checkTimes probes

/-- The first command that fails fails the rule. -/
def executeCommands : List Int → Int
  | [] => 1
  | result :: rest => if result ≠ 0 then -1 else executeCommands rest

/-- The first target whose dependencies have failed or are all good. -/
def scan (rules : Rules Target) (state : Target → Int) : List Target → Option (Target × Int)
  | [] => none
  | target :: rest =>
    if checkDependencies state (rules.dependencies target) ≠ 0 then
      some (target, checkDependencies state (rules.dependencies target))
    else scan rules state rest

end Functions

/-- Where a worker is in its loop. -/
inductive Place (Target : Type*) where
  /-- Before locking `target_mut`. -/
  | ready
  /-- With `target_mut` locked, after the scan took a target. -/
  | scanned (target : Target) (verdict : Int)
  /-- With `target_mut` locked, after the scan found nothing. -/
  | missed
  /-- In `pthread_cond_wait`, not woken. -/
  | parked
  /-- Woken, before it locks `target_mut` again. -/
  | woken
  /-- Running the commands of a rule. -/
  | executing (target : Target)
  /-- Before `set_state`. -/
  | setting (target : Target) (newState : Int)
  | exited
  deriving DecidableEq, Repr

namespace Place

variable {Target : Type*}

/-- The target that a worker has taken and whose state it has not set. -/
def target : Place Target → Option Target
  | scanned target _ => some target
  | executing target => some target
  | setting target _ => some target
  | _ => none

/-- A worker that has `target_mut` locked between two of its steps. -/
def holds : Place Target → Bool
  | scanned _ _ => true
  | missed => true
  | _ => false

/-- A worker that will look at the list again, or is working on a target. -/
def active : Place Target → Bool
  | missed => false
  | parked => false
  | exited => false
  | _ => true

/-- The broadcast wakes a worker that is parked. -/
def signaled : Place Target → Place Target
  | parked => woken
  | place => place

end Place

/-- The states of the rules, the shared list, the owner of `target_mut`, and the workers. -/
structure State (Target Worker : Type*) where
  state : Target → Int
  allVertexDfs : List Target
  targetMut : Option Worker
  place : Worker → Place Target

/-- At first all rules are in state 0, and all workers are about to look at the list. -/
def start {Target Worker : Type*} (work : List Target) : State Target Worker where
  state _ := 0
  allVertexDfs := work
  targetMut := none
  place _ := .ready

/-- What a worker does in one step. -/
inductive Event (Target : Type*) where
  | exit
  | take (target : Target) (verdict : Int)
  | miss
  | park
  | check (accessible : Bool) (probes : List Probe)
  | skip
  | execute (results : List Int)
  | setState
  | wake
  | spurious
  deriving DecidableEq, Repr

/-- A step of one worker. -/
structure Action (Target Worker : Type*) where
  worker : Worker
  event : Event Target
  deriving DecidableEq, Repr

section Steps

variable {Target Worker : Type*} [DecidableEq Target] [DecidableEq Worker]

/-- One worker moves to another place. -/
def State.goto (st : State Target Worker) (worker : Worker) (place : Place Target) :
    State Target Worker := { st with place := Function.update st.place worker place }

/--
The steps of `run`. The lock `target_mut` is held from a scan that took a target to the end of the
file check, and from a scan that found nothing to the wait; `g_mut` is released in between, so that
other workers can set states meanwhile.
-/
inductive Step (rules : Rules Target) :
    State Target Worker → Action Target Worker → State Target Worker → Prop
  | exit {st : State Target Worker} {worker : Worker} :
      st.place worker = .ready → st.targetMut = none → st.allVertexDfs = [] →
      Step rules st ⟨worker, .exit⟩ (st.goto worker .exited)
  | take {st : State Target Worker} {worker : Worker} {target : Target} {verdict : Int} :
      st.place worker = .ready → st.targetMut = none →
      scan rules st.state st.allVertexDfs = some (target, verdict) →
      Step rules st ⟨worker, .take target verdict⟩
        { st.goto worker (.scanned target verdict) with
          allVertexDfs := st.allVertexDfs.erase target
          targetMut := some worker }
  | miss {st : State Target Worker} {worker : Worker} :
      st.place worker = .ready → st.targetMut = none → st.allVertexDfs ≠ [] →
      scan rules st.state st.allVertexDfs = none →
      Step rules st ⟨worker, .miss⟩ { st.goto worker .missed with targetMut := some worker }
  | park {st : State Target Worker} {worker : Worker} :
      st.place worker = .missed →
      Step rules st ⟨worker, .park⟩ { st.goto worker .parked with targetMut := none }
  | check {st : State Target Worker} {worker : Worker} {target : Target} {accessible : Bool}
      {probes : List Probe} :
      st.place worker = .scanned target 1 → probes.length = (rules.dependencies target).length →
      Step rules st ⟨worker, .check accessible probes⟩
        { st.goto worker (if checkFileDependencies accessible probes = 0 then .executing target
            else .setting target (checkFileDependencies accessible probes)) with
          targetMut := none }
  | skip {st : State Target Worker} {worker : Worker} {target : Target} {verdict : Int} :
      st.place worker = .scanned target verdict → verdict ≠ 1 →
      Step rules st ⟨worker, .skip⟩ { st.goto worker (.setting target verdict) with targetMut := none }
  | execute {st : State Target Worker} {worker : Worker} {target : Target} {results : List Int} :
      st.place worker = .executing target → results.length = (rules.commands target).length →
      Step rules st ⟨worker, .execute results⟩
        (st.goto worker (.setting target (executeCommands results)))
  | setState {st : State Target Worker} {worker : Worker} {target : Target} {newState : Int} :
      st.place worker = .setting target newState →
      Step rules st ⟨worker, .setState⟩
        { st with
          state := Function.update st.state target newState
          place := Function.update (fun other => (st.place other).signaled) worker .ready }
  | wake {st : State Target Worker} {worker : Worker} :
      st.place worker = .woken → st.targetMut = none →
      Step rules st ⟨worker, .wake⟩ (st.goto worker .ready)
  | spurious {st : State Target Worker} {worker : Worker} :
      st.place worker = .parked → Step rules st ⟨worker, .spurious⟩ (st.goto worker .woken)

end Steps

end SystemProgramming.ParallelMake
