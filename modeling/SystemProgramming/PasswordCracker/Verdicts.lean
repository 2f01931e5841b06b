import SystemProgramming.PasswordCracker.Enumeration

/-! The first password cracker reports what one thread would report, line for line. -/

namespace SystemProgramming.PasswordCracker.Cracker1

open Foundations BlockingQueue

/-- What is printed for a line: the variables that the loop over the passwords leaves, and the flag. -/
abbrev Report := Job × Bool

variable {threads : Nat}

/-- What a step reports: the worker counts its line, and prints it. -/
def reportIn (taken : Transition (State threads) (Fin threads)) : Option Report :=
  match taken.before.place taken.action with
  | .counting job flag => some (job, flag)
  | _ => none

/-- What was reported, in order. -/
def reports (trace : List (Transition (State threads) (Fin threads))) : List Report :=
  trace.filterMap reportIn

variable {utils : Utils} {lines : List (List UInt8)} {queue : Queue (Option (List UInt8))}
  {queueSize : Nat} {st st' final : State threads} {worker : Fin threads} {job : Job} {flag : Bool}
  {trace : List (Transition (State threads) (Fin threads))}
  {cells : List (Nat × Node (Option (List UInt8)))}

/-- A worker came to a place of the loop over the passwords with its line. -/
def CameTo (utils : Utils) (command : List UInt8) (place : Place) : Prop :=
  ∃ userName password knownpass turns hashed, scan command = some (userName, password, knownpass) ∧
    Continues utils (firstJob utils command userName password knownpass) turns hashed place

/-- Where a worker is, it came to with the line that it has in hand. -/
def Searched (utils : Utils) : Place → Prop
  | .searching job => CameTo utils job.command (.searching job)
  | .counting job flag => CameTo utils job.command (.counting job flag)
  | .locking | .pulling | .pulled _ | .returned => True

/-- A step leads from where the worker came to with its line to the next such place. -/
theorem Searched.step (searched : Searched utils (st.place worker))
    (stepped : Step utils st worker st') : Searched utils (st'.place worker) := by
  -- Only three places have a line in hand, and one step leads to each.
  cases here : st.place worker with
  | locking =>
    simp only [Step, turn, here] at stepped
    split at stepped
    · cases stepped
    · split at stepped <;> (obtain rfl := Option.some.inj stepped; rw [State.goto_place]; trivial)
  | pulling =>
    simp only [Step, turn, here] at stepped
    split at stepped
    · cases stepped
    · obtain ⟨_, _, rfl⟩ := Option.map_eq_some_iff.mp stepped
      rw [State.goto_place]
      trivial
  | pulled command =>
    cases command with
    | none =>
      simp only [Step, turn, here] at stepped
      obtain rfl := Option.some.inj stepped
      rw [State.goto_place]
      trivial
    | some command =>
      simp only [Step, turn, here] at stepped
      obtain ⟨⟨userName, password, knownpass⟩, scanned, rfl⟩ := Option.map_eq_some_iff.mp stepped
      rw [State.goto_place]
      -- The loop begins here, with no turn taken and no string hashed.
      refine ⟨userName, password, knownpass, 0, [], scanned, fun more => ?_⟩
      rw [Nat.zero_add]
      exact Option.map_id'.symm
  | searching job =>
    rw [here] at searched
    obtain ⟨userName, password, knownpass, turns, hashed, scanned, continues⟩ := searched
    -- The turn that was just taken is one more of the loop.
    have next := continues.step here stepped
    -- The line in hand stays the same.
    simp only [Step, turn, here] at stepped
    split at stepped
    · split at stepped <;>
        (obtain rfl := Option.some.inj stepped
         rw [State.goto_place] at next ⊢
         exact ⟨userName, password, knownpass, _, _, scanned, next⟩)
    · obtain rfl := Option.some.inj stepped
      rw [State.goto_place] at next ⊢
      exact ⟨userName, password, knownpass, _, _, scanned, next⟩
  | counting job flag =>
    simp only [Step, turn, here] at stepped
    split at stepped
    · cases stepped
    · split at stepped <;> (obtain rfl := Option.some.inj stepped; rw [State.goto_place]; trivial)
  | returned =>
    simp only [Step, turn, here] at stepped
    cases stepped

/-- A step changes the counters only where its worker counts, by one of its line. -/
theorem Step.counters (stepped : Step utils st worker st') :
    st'.successCount = st.successCount +
        ((reportIn ⟨st, worker, st'⟩).toList.countP fun report => !report.2) ∧
      st'.failCount = st.failCount +
        ((reportIn ⟨st, worker, st'⟩).toList.countP fun report => report.2) := by
  -- The counters are changed at one place only.
  cases here : st.place worker with
  | counting job flag =>
    simp only [Step, turn, here] at stepped
    simp only [reportIn, here, Option.toList_some, List.countP_singleton]
    split at stepped
    · cases stepped
    · split at stepped
      · next failed =>
        obtain rfl := Option.some.inj stepped
        simp [State.goto, failed]
      · next right =>
        obtain rfl := Option.some.inj stepped
        simp [State.goto, right]
  | locking =>
    simp only [Step, turn, here] at stepped
    simp only [reportIn, here]
    split at stepped
    · cases stepped
    · split at stepped <;> (obtain rfl := Option.some.inj stepped; exact ⟨rfl, rfl⟩)
  | pulling =>
    simp only [Step, turn, here] at stepped
    simp only [reportIn, here]
    split at stepped
    · cases stepped
    · obtain ⟨_, _, rfl⟩ := Option.map_eq_some_iff.mp stepped
      exact ⟨rfl, rfl⟩
  | pulled command =>
    simp only [reportIn, here]
    cases command with
    | none =>
      simp only [Step, turn, here] at stepped
      obtain rfl := Option.some.inj stepped
      exact ⟨rfl, rfl⟩
    | some command =>
      simp only [Step, turn, here] at stepped
      obtain ⟨_, _, rfl⟩ := Option.map_eq_some_iff.mp stepped
      exact ⟨rfl, rfl⟩
  | searching job =>
    simp only [Step, turn, here] at stepped
    simp only [reportIn, here]
    split at stepped
    · split at stepped <;> (obtain rfl := Option.some.inj stepped; exact ⟨rfl, rfl⟩)
    · obtain rfl := Option.some.inj stepped
      exact ⟨rfl, rfl⟩
  | returned =>
    simp only [Step, turn, here] at stepped
    cases stepped

/-- A step reports the line that it counts. -/
theorem reportIn_command (taken : Transition (State threads) (Fin threads)) :
    (reportIn taken).map (fun report => report.1.command) = (processedIn taken).map Prod.snd := by
  rw [reportIn, processedIn]
  cases taken.before.place taken.action <;> rfl

/-- What was reported is what the loop made of each line, and the counters count it. -/
structure Judged (utils : Utils) (trace : List (Transition (State threads) (Fin threads)))
    (st : State threads) : Prop where
  places : ∀ worker, Searched utils (st.place worker)
  reported : ∀ report ∈ reports trace, Searched utils (.counting report.1 report.2)
  commands : (reports trace).map (fun report => report.1.command) = (processed trace).map Prod.snd
  successes : st.successCount = (reports trace).countP fun report => !report.2
  failures : st.failCount = (reports trace).countP fun report => report.2

/-- A step adds what it reports. -/
theorem reports_snoc (taken : Transition (State threads) (Fin threads)) :
    reports (trace ++ [taken]) = reports trace ++ (reportIn taken).toList := by
  rw [reports, List.filterMap_append, List.filterMap_cons, List.filterMap_nil]
  cases reportIn taken <;> rfl

/-- A step adds the line that it counts. -/
theorem processed_snoc (taken : Transition (State threads) (Fin threads)) :
    processed (trace ++ [taken]) = processed trace ++ (processedIn taken).toList := by
  rw [processed, List.filterMap_append, List.filterMap_cons, List.filterMap_nil]
  cases processedIn taken <;> rfl

/-- Every step keeps this. -/
theorem Judged.step (judged : Judged utils trace st) (stepped : Step utils st worker st') :
    Judged utils (trace ++ [⟨st, worker, st'⟩]) st' := by
  obtain ⟨successes, failures⟩ := stepped.counters
  -- One worker moves, and reports at most one line.
  refine ⟨fun other => ?_, fun report member => ?_, ?_, ?_, ?_⟩
  · by_cases own : other = worker
    · subst own
      exact (judged.places other).step stepped
    · rw [stepped.places own]
      exact judged.places other
  · -- What this step reports, its worker came to.
    rw [reports_snoc, List.mem_append] at member
    rcases member with old | new
    · exact judged.reported report old
    · have came := judged.places worker
      rw [Option.mem_toList, reportIn] at new
      dsimp only at new
      split at new
      next job flag here =>
        cases new
        rwa [here] at came
      next => cases new
  · rw [reports_snoc, processed_snoc, List.map_append, List.map_append, judged.commands,
      ← Option.toList_map, ← Option.toList_map, reportIn_command]
  · rw [successes, reports_snoc, List.countP_append, judged.successes]
  · rw [failures, reports_snoc, List.countP_append, judged.failures]

end SystemProgramming.PasswordCracker.Cracker1
