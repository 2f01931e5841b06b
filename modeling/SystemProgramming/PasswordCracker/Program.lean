import SystemProgramming.Foundations.Potential
import SystemProgramming.PasswordCracker.HashCounts
import Mathlib.Data.FinEnum
import Mathlib.Data.Fintype.BigOperators
import Mathlib.Data.Set.Finite.List

/-! The second password cracker as a whole: the main thread, the workers, and their two barriers. -/

namespace SystemProgramming.PasswordCracker.Cracker2

open Foundations

/-- Where the main thread is in `start`. -/
inductive MainPlace where
  /-- About to call `getline`. -/
  | reading
  /-- Before `start_barrier`, with a line. -/
  | starting
  /-- At `start_barrier`. -/
  | started
  /-- Before `end_barrier`. -/
  | ending
  /-- At `end_barrier`. -/
  | ended
  /-- About to add up the hashes and to print the summary. -/
  | summing
  /-- Before `start_barrier` for the last time, without a task. -/
  | closing
  /-- At `start_barrier` for the last time. -/
  | closed
  /-- About to join the workers. -/
  | joining
  /-- At its end. -/
  | finished
  deriving DecidableEq, Repr

/-- Where a worker is in `password_cracker_thread`. -/
inductive Spot where
  /-- Before `start_barrier`. -/
  | starting
  /-- At `start_barrier`. -/
  | started
  /-- About to look at `task_pending`. -/
  | testing
  /-- In `generate_initial_password` or `search_for_password`, or behind them. -/
  | searching
  /-- At `end_barrier`. -/
  | ended
  /-- At its end. -/
  | exited
  deriving DecidableEq, Repr

/-- What a summary prints, but for the times. -/
structure Summary where
  userName : List UInt8
  decryptedPassword : Option (List UInt8)
  overallHashCount : Nat
  deriving DecidableEq, Repr

/-- The lines that `getline` still returns, the global variables, the threads, and the summaries. -/
structure Program (threads : Nat) where
  input : List (List UInt8)
  taskPending : Bool
  userName : List UInt8
  password : List UInt8
  knownpass : List UInt8
  overallHashCount : Nat
  round : Round threads
  main : MainPlace
  spot : Fin threads → Spot
  printed : List Summary

variable {threads : Nat}

/-- All threads are created, and `getline` was not called. -/
def Program.launch (threads : Nat) (lines : List (List UInt8)) : Program threads where
  input := lines
  taskPending := false
  userName := []
  password := []
  knownpass := []
  overallHashCount := 0
  round := ⟨0, none, fun _ => ⟨.reset, [], 0, 0⟩⟩
  main := .reading
  spot _ := .starting
  printed := []

/-- What is kept from line to line. -/
def Program.session (st : Program threads) : Session threads where
  userName := st.userName
  password := st.password
  knownpass := st.knownpass
  rangeCount := st.round.rangeCount
  workers := st.round.workers
  overallHashCount := st.overallHashCount

/-- A worker goes on. -/
def Program.goto (st : Program threads) (thread : Fin threads) (spot : Spot) : Program threads :=
  { st with spot := Function.update st.spot thread spot }

/-- The main thread comes to a barrier. -/
def MainPlace.arrives : MainPlace → Option MainPlace
  | .starting => some .started
  | .ending => some .ended
  | .closing => some .closed
  | _ => none

/-- Where it goes on behind `start_barrier`. -/
def MainPlace.released : MainPlace → Option MainPlace
  | .started => some .ending
  | .closed => some .joining
  | _ => none

/-- Who makes a step; all threads leave a barrier together. -/
inductive Actor (threads : Nat) where
  | main
  | worker (thread : Fin threads)
  | barrier

/-- The steps of the program. A barrier lets go when the main thread and all workers are there. -/
inductive ProgramStep (utils : Utils) :
    Program threads → Actor threads → Program threads → Prop
  /-- The variables are set in one step, since the workers wait for the main thread. -/
  | line {st : Program threads} {command : List UInt8} {rest : List (List UInt8)}
      {scanned : Session threads} : st.main = .reading → st.input = command :: rest →
      st.session.scan command = some scanned →
      ProgramStep utils st .main
        { st with
          input := rest
          taskPending := true
          userName := scanned.userName
          password := scanned.password
          knownpass := scanned.knownpass
          round := { st.round with decryptedPassword := none }
          main := .starting }
  | noLine {st : Program threads} : st.main = .reading → st.input = [] →
      ProgramStep utils st .main { st with taskPending := false, main := .closing }
  | mainArrives {st : Program threads} {next : MainPlace} : st.main.arrives = some next →
      ProgramStep utils st .main { st with main := next }
  | arrives {st : Program threads} {thread : Fin threads} : st.spot thread = .starting →
      ProgramStep utils st (.worker thread) (st.goto thread .started)
  | start {st : Program threads} {next : MainPlace} : st.main.released = some next →
      (∀ thread, st.spot thread = .started) →
      ProgramStep utils st .barrier { st with main := next, spot := fun _ => .testing }
  | task {st : Program threads} {thread : Fin threads} : st.spot thread = .testing →
      st.taskPending = true →
      ProgramStep utils st (.worker thread)
        { st.goto thread .searching with
          round := st.round.goto thread { st.round.workers thread with place := .reset } }
  | noTask {st : Program threads} {thread : Fin threads} : st.spot thread = .testing →
      st.taskPending = false → ProgramStep utils st (.worker thread) (st.goto thread .exited)
  | search {st : Program threads} {thread : Fin threads} {round : Round threads} :
      st.spot thread = .searching → Step utils st.password st.knownpass st.round thread round →
      ProgramStep utils st (.worker thread) { st with round := round }
  | searched {st : Program threads} {thread : Fin threads} {threadStatus : Nat} :
      st.spot thread = .searching → (st.round.workers thread).place = .done threadStatus →
      ProgramStep utils st (.worker thread) (st.goto thread .ended)
  | finish {st : Program threads} : st.main = .ended → (∀ thread, st.spot thread = .ended) →
      ProgramStep utils st .barrier { st with main := .summing, spot := fun _ => .starting }
  | summary {st : Program threads} {total : Nat} : st.main = .summing →
      sumHashes st.round.workers st.overallHashCount = some total →
      ProgramStep utils st .main
        { st with
          overallHashCount := total
          printed := st.printed ++ [⟨st.userName, st.round.decryptedPassword, total⟩]
          main := .reading }
  | join {st : Program threads} : st.main = .joining → (∀ thread, st.spot thread = .exited) →
      ProgramStep utils st .main { st with main := .finished }

section Weights

variable {utils : Utils} {password knownpass : List UInt8} {limit : Nat}

/-- How many steps a worker can still make in its round, where no subrange has more strings. -/
def Worker.rank (limit : Nat) (worker : Worker) : Nat :=
  match worker.place with
  | .reset => 3 * limit + 3
  | .subrange => 3 * limit + 2
  | .test => 3 * (limit - worker.i) + 1
  | .check => 3 * (limit - (worker.i + 1)) + 3
  | .hash => 3 * (limit - (worker.i + 1)) + 2
  | .done _ => 0

/-- A worker changes nothing but what is its own, and takes from what it can still do. -/
theorem Step.rank_falls {round after : Round threads} {thread : Fin threads}
    (stepped : Step utils password knownpass round thread after)
    (short : round.rangeCount ≤ limit) :
    ∃ worker, after.workers = Function.update round.workers thread worker ∧
      worker.rank limit + 1 ≤ (round.workers thread).rank limit := by
  rw [Step, turn] at stepped
  obtain ⟨⟨place, word, i, computed⟩, here⟩ : ∃ worker, round.workers thread = worker := ⟨_, rfl⟩
  rw [here] at stepped ⊢
  -- Each place of the loop stands for the steps that a worker has left there.
  cases place with
  | reset =>
    obtain rfl := Option.some.inj stepped
    exact ⟨_, rfl, Nat.le_refl _⟩
  | subrange =>
    obtain rfl := Option.some.inj stepped
    exact ⟨_, rfl, Nat.le_refl _⟩
  | test =>
    simp only at stepped
    split at stepped
    · -- The bound lets it go on, so that there is still a string in it.
      rename_i below
      obtain rfl := Option.some.inj stepped
      refine ⟨_, rfl, ?_⟩
      simp only [Worker.rank]
      omega
    · obtain rfl := Option.some.inj stepped
      exact ⟨_, rfl, Nat.succ_le_succ (Nat.zero_le _)⟩
  | check =>
    simp only at stepped
    split at stepped
    · obtain rfl := Option.some.inj stepped
      exact ⟨_, rfl, Nat.succ_le_succ (Nat.zero_le _)⟩
    · obtain rfl := Option.some.inj stepped
      exact ⟨_, rfl, Nat.le_refl _⟩
  | hash =>
    simp only at stepped
    split at stepped
    · obtain rfl := Option.some.inj stepped
      exact ⟨_, rfl, Nat.succ_le_succ (Nat.zero_le _)⟩
    · obtain rfl := Option.some.inj stepped
      exact ⟨_, rfl, Nat.le_refl _⟩
  | done threadStatus => cases stepped

/-- How many steps a worker can still make until it waits for the main thread, and one more. -/
def Spot.weight (limit : Nat) : Spot × Worker → Nat
  | (.starting, _) | (.ended, _) => 1
  | (.started, _) | (.exited, _) => 0
  | (.testing, _) => 3 * limit + 6
  | (.searching, worker) => worker.rank limit + 2

/-- How many steps the main thread can still make for a line, and those that the workers owe it. -/
def MainPlace.weight (work : Nat) : MainPlace → Nat
  | .starting => 2 * work + 9
  | .started => 2 * work + 8
  | .ending => work + 7
  | .ended => work + 6
  | .summing => work + 5
  | .reading => work + 4
  | .closing => work + 3
  | .closed => work + 2
  | .joining => 1
  | .finished => 0

/-- To come to a barrier is one step. -/
theorem MainPlace.weight_arrives {main next : MainPlace} (work : Nat)
    (arrives : main.arrives = some next) : next.weight work + 1 ≤ main.weight work := by
  -- The weights of a place before a barrier and at it differ by one.
  cases main with
  | starting | ending | closing =>
    obtain rfl := Option.some.inj arrives
    exact Nat.le_refl _
  | _ => cases arrives

/-- To leave `start_barrier` is one, and leaves the work to the workers. -/
theorem MainPlace.weight_released {main next : MainPlace} (work : Nat)
    (released : main.released = some next) : next.weight work + work + 1 ≤ main.weight work := by
  cases main with
  | started | closed =>
    obtain rfl := Option.some.inj released
    simp only [MainPlace.weight]
    omega
  | _ => cases released

/-- The work of all workers in one round. -/
def work (threads limit : Nat) : Nat := threads * (3 * limit + 6)

/-- How many steps the program can still make. -/
def Program.effort (limit : Nat) (st : Program threads) : Nat :=
  st.input.length * (work threads limit + 6) + st.main.weight (work threads limit) +
    total (Spot.weight limit) fun thread => (st.spot thread, st.round.workers thread)

variable {st after : Program threads} {actor : Actor threads} {thread : Fin threads}

/-- The effort where a worker moves, and possibly its variables. -/
theorem total_goto (limit : Nat) (st : Program threads) (thread : Fin threads) (spot : Spot)
    (worker : Worker)
    (falls : Spot.weight limit (spot, worker) + 1 ≤
      Spot.weight limit (st.spot thread, st.round.workers thread)) :
    total (Spot.weight limit) (fun other => (Function.update st.spot thread spot other,
        Function.update st.round.workers thread worker other)) + 1 ≤
      total (Spot.weight limit) fun other => (st.spot other, st.round.workers other) := by
  -- Only the entry of this worker changes.
  have moved := total_update (Spot.weight limit)
    (fun other => (st.spot other, st.round.workers other)) thread (spot, worker)
  have same : (fun other => (Function.update st.spot thread spot other,
      Function.update st.round.workers thread worker other)) =
      Function.update (fun other => (st.spot other, st.round.workers other)) thread
        (spot, worker) := by
    funext other
    by_cases mine : other = thread
    · subst mine
      simp only [Function.update_self]
    · simp only [Function.update_of_ne mine]
  rw [same]
  omega

/-- A worker that moves without a change of its variables. -/
theorem Program.effort_goto (limit : Nat) (st : Program threads) (thread : Fin threads)
    (spot : Spot) (falls : Spot.weight limit (spot, st.round.workers thread) + 1 ≤
      Spot.weight limit (st.spot thread, st.round.workers thread)) :
    (st.goto thread spot).effort limit + 1 ≤ st.effort limit := by
  have less := total_goto limit st thread spot _ falls
  -- Its variables stay, so the update of the workers is none.
  rw [Function.update_eq_self] at less
  simp only [effort, goto] at less ⊢
  omega

/-- Every step takes from what the program can still do. -/
theorem ProgramStep.falls (step : ProgramStep utils st actor after)
    (short : st.round.rangeCount ≤ limit) : after.effort limit + 1 ≤ st.effort limit := by
  cases step with
  | line here input =>
    -- The line is paid for by the input that is left.
    simp only [Program.effort, here, input, List.length_cons, MainPlace.weight, Nat.succ_mul]
    omega
  | noLine here input =>
    simp only [Program.effort, here, MainPlace.weight]
    omega
  | mainArrives arrives =>
    have less := MainPlace.weight_arrives (work threads limit) arrives
    simp only [Program.effort]
    omega
  | arrives here => exact st.effort_goto limit _ _ (by rw [here]; exact Nat.le_refl _)
  | start released all =>
    -- All workers begin with what the main thread has kept for them.
    have owed : total (Spot.weight limit) (fun thread => (Spot.testing, st.round.workers thread)) =
        work threads limit := by
      simp [total, Spot.weight, work]
    have less := MainPlace.weight_released (work threads limit) released
    simp only [Program.effort, owed]
    omega
  | @task thread here pending =>
    have less := total_goto limit st thread .searching
      { st.round.workers thread with place := .reset } (by rw [here]; exact Nat.le_refl _)
    simp only [Program.effort, Program.goto, Round.goto] at less ⊢
    omega
  | noTask here _ =>
    exact st.effort_goto limit _ _ (by rw [here]; exact Nat.succ_le_succ (Nat.zero_le _))
  | @search thread round here stepped =>
    -- The search takes from the rank of the worker, which is part of its weight.
    obtain ⟨worker, moved, less⟩ := stepped.rank_falls short
    have less := total_goto limit st thread .searching worker (by
      rw [here]
      exact Nat.add_le_add_right less 2)
    rw [← here, Function.update_eq_self, ← moved] at less
    simp only [Program.effort] at less ⊢
    omega
  | searched here _ =>
    exact st.effort_goto limit _ _ (by rw [here]; exact Nat.le_add_left _ _)
  | finish here all =>
    -- A worker at either barrier is worth the same, so letting go costs the workers nothing.
    have same : total (Spot.weight limit) (fun thread => (Spot.starting, st.round.workers thread)) =
        total (Spot.weight limit) fun thread => (st.spot thread, st.round.workers thread) := by
      simp only [total, all, Spot.weight]
    simp only [Program.effort, here, same, MainPlace.weight]
    omega
  | summary here _ =>
    simp only [Program.effort, here, MainPlace.weight]
    omega
  | join here _ =>
    simp only [Program.effort, here, MainPlace.weight]
    omega

end Weights

section Bound

variable {utils : Utils} {limit : Nat} {st after : Program threads} {actor : Actor threads}

/-- No subrange for a prefix that fits into `knownpass` has more strings. -/
def Covers (utils : Utils) (threads limit : Nat) : Prop :=
  ∀ knownpass : List UInt8, knownpass.length < 32 → ∀ thread : Fin threads,
    (utils.subrange knownpass threads (threadId thread)).2 ≤ limit

/-- There are finitely many prefixes, so that some limit is large enough. -/
theorem exists_covers (utils : Utils) (threads : Nat) : ∃ limit, Covers utils threads limit := by
  have finite := List.finite_length_lt UInt8 32
  let count (asked : List UInt8 × Fin threads) : Nat :=
    (utils.subrange asked.1 threads (threadId asked.2)).2
  refine ⟨(finite.toFinset ×ˢ Finset.univ).sup count, fun knownpass fits thread => ?_⟩
  have member : (knownpass, thread) ∈ finite.toFinset ×ˢ Finset.univ :=
    Finset.mem_product.mpr ⟨finite.mem_toFinset.mpr fits, Finset.mem_univ _⟩
  exact @Finset.le_sup _ _ _ _ _ count _ member

/-- The bound of the loops is that of some subrange. -/
structure Program.Short (limit : Nat) (st : Program threads) : Prop where
  bound : st.round.rangeCount ≤ limit
  fits : st.knownpass.length < 32

/-- A prefix that is read fits into its variable. -/
theorem scan_fits {session scanned : Session threads} {command : List UInt8}
    (fits : session.knownpass.length < 32) (scans : session.scan command = some scanned) :
    scanned.knownpass.length < 32 := by
  simp only [Session.scan] at scans
  split at scans
  · cases scans
  · rename_i short
    obtain rfl := Option.some.inj scans
    simp only [assign]
    split
    · exact fits
    · omega

/-- A thread writes the bound of its own subrange, or 0. -/
theorem Step.short {round next : Round threads} {password knownpass : List UInt8}
    {thread : Fin threads} (covers : Covers utils threads limit) (fits : knownpass.length < 32)
    (short : round.rangeCount ≤ limit)
    (stepped : Step utils password knownpass round thread next) : next.rangeCount ≤ limit := by
  rw [Step, turn] at stepped
  -- Only two places write `rangeCount`, which all workers share.
  cases here : (round.workers thread).place with
  | reset =>
    simp only [here] at stepped
    obtain rfl := Option.some.inj stepped
    exact Nat.zero_le _
  | subrange =>
    simp only [here] at stepped
    obtain rfl := Option.some.inj stepped
    exact covers knownpass fits thread
  | test | check | hash =>
    simp only [here] at stepped
    split at stepped <;>
      · obtain rfl := Option.some.inj stepped
        exact short
  | done threadStatus =>
    simp only [here] at stepped
    cases stepped

theorem Program.Short.step (covers : Covers utils threads limit) (short : st.Short limit)
    (step : ProgramStep utils st actor after) : after.Short limit := by
  -- The bound and the prefix change in two kinds of steps only.
  cases step with
  | line _ _ scans => exact ⟨short.bound, scan_fits short.fits scans⟩
  | search _ stepped => exact ⟨stepped.short covers short.fits short.bound, short.fits⟩
  | _ => exact ⟨short.bound, short.fits⟩

/-- No run is longer than all lines, all threads and all subranges account for. -/
theorem program_length_le {lines : List (List UInt8)} (covers : Covers utils threads limit)
    {trace : List (Transition (Program threads) (Actor threads))}
    (run : Run (ProgramStep utils) (Program.launch threads lines) trace st) :
    trace.length ≤ lines.length * (work threads limit + 6) + work threads limit + 4 + threads := by
  -- The effort and the steps made are together no more than at first.
  have bound : st.effort limit + trace.length ≤ (Program.launch threads lines).effort limit ∧
      st.Short limit := by
    refine @Run.history _ _ _ _ _ _ (fun trace st =>
      st.effort limit + trace.length ≤ (Program.launch threads lines).effort limit ∧
        st.Short limit) run ⟨Nat.le_refl _, Nat.zero_le _, Nat.zero_lt_succ _⟩ ?_
    rintro trace before actor after ⟨earlier, short⟩ step
    have less := step.falls short.bound
    refine ⟨?_, short.step covers step⟩
    rw [List.length_append, List.length_singleton]
    omega
  have begins : (Program.launch threads lines).effort limit =
      lines.length * (work threads limit + 6) + (work threads limit + 4) + threads := by
    simp [Program.effort, Program.launch, MainPlace.weight, total, Spot.weight]
  omega

end Bound

end SystemProgramming.PasswordCracker.Cracker2
