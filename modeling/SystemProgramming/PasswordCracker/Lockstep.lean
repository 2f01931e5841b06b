import SystemProgramming.PasswordCracker.Program

/-! The threads of the second password cracker go through its rounds together, one for each line. -/

namespace SystemProgramming.PasswordCracker.Cracker2

open Foundations

variable {threads : Nat}

/-- The password that was found at the end of a round. -/
def UserRound.found (round : UserRound threads) : Option (List UInt8) :=
  round.steps.getLast?.bind fun taken => taken.after.decryptedPassword

/-- The summary of a round. -/
def summaryOf (taken : Transition (Session threads) (UserRound threads)) : Summary where
  userName := taken.after.userName
  decryptedPassword := taken.action.found
  overallHashCount := taken.after.overallHashCount

section Rounds

variable {utils : Utils} {password knownpass command : List UInt8} {rangeCount : Nat}
  {old : Fin threads → Worker} {round next final : Round threads} {thread : Fin threads}
  {steps : List (Transition (Round threads) (Fin threads))}

/-- That is what `decrypted_password` holds, as it is reset before the round. -/
theorem found_eq (run : Run (Step utils password knownpass) (start rangeCount old) steps final) :
    (UserRound.mk command steps).found = final.decryptedPassword := by
  -- The last state of the round is where its last step leads to.
  cases run with
  | start => rfl
  | next earlier stepped => rw [UserRound.found, List.getLast?_concat]; rfl

/-- Whatever the bounds are, only a string with the right hash is found. -/
theorem found_right (run : Run (Step utils password knownpass) (start rangeCount old) steps final) :
    ∀ word, final.decryptedPassword = some word → utils.crypt word = password := by
  -- One step alone stores a word, that of a hash which is equal.
  refine @Run.invariant _ _ _ _ _ _ (fun st : Round threads => ∀ word,
    st.decryptedPassword = some word → utils.crypt word = password) run
    (fun word found => by cases found) fun before thread after right stepped => ?_
  rw [Step, turn] at stepped
  cases here : (before.workers thread).place with
  | reset | subrange =>
    simp only [here] at stepped
    obtain rfl := Option.some.inj stepped
    exact right
  | test | check =>
    simp only [here] at stepped
    split at stepped <;>
      · obtain rfl := Option.some.inj stepped
        exact right
  | hash =>
    simp only [here] at stepped
    split at stepped
    · rename_i equal
      obtain rfl := Option.some.inj stepped
      -- The word was stored by this very comparison.
      intro word found
      obtain rfl := Option.some.inj found
      exact equal
    · obtain rfl := Option.some.inj stepped
      exact right
  | done threadStatus =>
    simp only [here] at stepped
    cases stepped

/-- A worker uses the shared variables and its own only, wherever the others are. -/
theorem Step.frame (stepped : Step utils password knownpass round thread next) :
    ∃ worker, next.workers = Function.update round.workers thread worker ∧
      ∀ workers : Fin threads → Worker, workers thread = round.workers thread →
        Step utils password knownpass { round with workers := workers } thread
          { next with workers := Function.update workers thread worker } := by
  rw [Step, turn] at stepped
  -- A step reads and writes the place of its own worker, in every branch.
  cases here : (round.workers thread).place with
  | reset | subrange =>
    simp only [here] at stepped
    obtain rfl := Option.some.inj stepped
    refine ⟨_, rfl, fun workers same => ?_⟩
    simp only [Step, turn, same, here, Round.goto]
  | test | check | hash =>
    simp only [here] at stepped
    split at stepped <;>
      · rename_i choice
        obtain rfl := Option.some.inj stepped
        refine ⟨_, rfl, fun workers same => ?_⟩
        simp [Step, turn, same, here, Round.goto, choice]
  | done threadStatus =>
    simp only [here] at stepped
    cases stepped

/-- A worker that is not at the end of its round can go on. -/
theorem exists_turn (utils : Utils) (password knownpass : List UInt8) (round : Round threads)
    (thread : Fin threads) : (∃ threadStatus, (round.workers thread).place = .done threadStatus) ∨
      ∃ next, Step utils password knownpass round thread next := by
  cases here : (round.workers thread).place with
  | done threadStatus => exact .inl ⟨threadStatus, rfl⟩
  | reset | subrange =>
    refine .inr ?_
    simp only [Step, turn, here]
    exact ⟨_, rfl⟩
  | test | check | hash =>
    refine .inr ?_
    simp only [Step, turn, here]
    split <;> exact ⟨_, rfl⟩

end Rounds

/-- What was scanned, and the variables that a round changes. -/
def Session.along (session : Session threads) (round : Round threads) : Session threads :=
  { session with rangeCount := round.rangeCount, workers := round.workers }

/-- The round that a program is in, where a worker that has not begun is shown at its start. -/
def Program.shown (st : Program threads) : Round threads :=
  { st.round with
    workers := fun thread =>
      if st.spot thread = .testing then { st.round.workers thread with place := .reset }
      else st.round.workers thread }

section Phases

variable {utils : Utils} {session : Session threads} {opened : List (List UInt8)}
  {st after : Program threads} {actor : Actor threads} {thread : Fin threads} {main : MainPlace}

/-- The workers are at `start_barrier`, or on the way to it. -/
def Program.Waits (st : Program threads) : Prop :=
  ∀ thread, st.spot thread = .starting ∨ st.spot thread = .started

/-- Between two rounds. -/
structure Between (session : Session threads) (opened : List (List UInt8)) (st : Program threads) :
    Prop where
  waits : st.Waits
  same : st.session = session
  none : opened = []

/-- A line is read. -/
structure Begun (session : Session threads) (opened : List (List UInt8)) (st : Program threads) :
    Prop where
  waits : st.Waits
  pending : st.taskPending = true
  missing : st.round.decryptedPassword = none
  scans : ∃ command, opened = [command] ∧ session.scan command = some st.session

/-- The workers search. -/
structure Searching (utils : Utils) (session : Session threads) (opened : List (List UInt8))
    (st : Program threads) : Prop where
  pending : st.taskPending = true
  spots : ∀ thread, st.spot thread = .testing ∨ st.spot thread = .searching ∨
    (st.spot thread = .ended ∧ ∃ threadStatus, (st.round.workers thread).place = .done threadStatus)
  searches : ∃ command scanned steps, opened = [command] ∧ session.scan command = some scanned ∧
    st.session = scanned.along st.round ∧
    Run (Step utils scanned.password scanned.knownpass)
      (start scanned.rangeCount scanned.workers) steps st.shown

/-- The round is over, and its summary is not yet printed. -/
structure Over (utils : Utils) (session : Session threads) (opened : List (List UInt8))
    (st : Program threads) : Prop where
  waits : st.Waits
  played : ∃ round scanned, opened = [round.command] ∧ st.session = scanned.along st.round ∧
    Played utils session round scanned st.round

/-- All lines are read. -/
structure Closing (opened : List (List UInt8)) (st : Program threads) : Prop where
  waits : st.Waits
  pending : st.taskPending = false
  read : opened ++ st.input = []

/-- The workers leave. -/
structure Joining (opened : List (List UInt8)) (st : Program threads) : Prop where
  spots : ∀ thread, st.spot thread = .testing ∨ st.spot thread = .exited
  pending : st.taskPending = false
  read : opened ++ st.input = []

/-- They have left. -/
structure Finished (opened : List (List UInt8)) (st : Program threads) : Prop where
  exited : ∀ thread, st.spot thread = .exited
  read : opened ++ st.input = []

/-- What the place of the main thread tells about the rest, where `opened` is the line at work. -/
def Phase (utils : Utils) (session : Session threads) (opened : List (List UInt8))
    (st : Program threads) : MainPlace → Prop
  | .reading => Between session opened st
  | .starting | .started => Begun session opened st
  | .ending | .ended => Searching utils session opened st
  | .summing => Over utils session opened st
  | .closing | .closed => Closing opened st
  | .joining => Joining opened st
  | .finished => Finished opened st

/-- A worker moves, and the others stay. -/
@[simp] theorem Program.goto_spot (st : Program threads) (thread : Fin threads) (spot : Spot) :
    (st.goto thread spot).spot thread = spot :=
  Function.update_self _ _ _

theorem Program.goto_spot_of_ne {other : Fin threads} {spot : Spot} (apart : other ≠ thread) :
    (st.goto thread spot).spot other = st.spot other :=
  Function.update_of_ne apart _ _

/-- Workers that come to `start_barrier` still wait. -/
theorem Program.Waits.arrives (waits : st.Waits) : (st.goto thread .started).Waits := by
  intro other
  by_cases mine : other = thread
  · subst mine
    exact .inr (st.goto_spot _ _)
  · rw [goto_spot_of_ne mine]
    exact waits other

/-- While workers wait for the main thread, none does anything else. -/
theorem Program.Waits.spot_ne (waits : st.Waits) :
    st.spot thread ≠ .testing ∧ st.spot thread ≠ .searching := by
  rcases waits thread with here | here <;> rw [here] <;> decide

/-- There is at most one line at work. -/
theorem Phase.opened_le (phase : Phase utils session opened st main) : opened.length ≤ 1 := by
  have single {command : List UInt8} (line : opened = [command]) : opened.length ≤ 1 := by
    rw [line, List.length_singleton]
  have empty (read : opened ++ st.input = []) : opened.length ≤ 1 := by
    rw [(List.append_eq_nil_iff.mp read).1]
    exact Nat.zero_le _
  -- Each phase says what the line at work is.
  cases main with
  | reading =>
    rw [phase.none]
    exact Nat.zero_le _
  | starting | started =>
    obtain ⟨command, line, _⟩ := phase.scans
    exact single line
  | ending | ended =>
    obtain ⟨command, _, _, line, _⟩ := phase.searches
    exact single line
  | summing =>
    obtain ⟨round, _, line, _⟩ := phase.played
    exact single line
  | closing | closed | joining | finished => exact empty phase.read

/-- A worker comes to `start_barrier`. -/
theorem Phase.arrives (phase : Phase utils session opened st main)
    (here : st.spot thread = .starting) :
    Phase utils session opened (st.goto thread .started) main := by
  cases main with
  | reading => exact ⟨phase.waits.arrives, phase.same, phase.none⟩
  | starting | started =>
    exact ⟨phase.waits.arrives, phase.pending, phase.missing, phase.scans⟩
  | summing => exact ⟨phase.waits.arrives, phase.played⟩
  | closing | closed => exact ⟨phase.waits.arrives, phase.pending, phase.read⟩
  | ending | ended =>
    -- In a round, all workers are behind the barrier.
    rcases phase.spots thread with spot | spot | ⟨spot, _⟩ <;> rw [here] at spot <;> cases spot
  | joining => rcases phase.spots thread with spot | spot <;> rw [here] at spot <;> cases spot
  | finished =>
    have spot := phase.exited thread
    rw [here] at spot
    cases spot

/-- The main thread comes to a barrier. -/
theorem Phase.mainArrives {next : MainPlace} (phase : Phase utils session opened st main)
    (arrives : main.arrives = some next) :
    Phase utils session opened { st with main := next } next := by
  -- The workers do not see that the main thread comes, so the phase is what it was.
  cases main with
  | starting | ending | closing =>
    obtain rfl := Option.some.inj arrives
    cases phase
    constructor <;> assumption
  | _ => cases arrives

/-- All leave `start_barrier`, and begin with a round or find no task. -/
theorem Phase.start {next : MainPlace} (phase : Phase utils session opened st main)
    (released : main.released = some next) :
    Phase utils session opened { st with main := next, spot := fun _ => .testing } next := by
  cases main with
  | started =>
    obtain rfl := Option.some.inj released
    obtain ⟨command, opened, scans⟩ := phase.scans
    refine ⟨phase.pending, fun _ => .inl rfl, command, st.session, [], opened, scans, rfl, ?_⟩
    -- Shown at their start, the workers are where a round begins.
    have begins : Program.shown { st with main := .ending, spot := fun _ => .testing } =
        Cracker2.start st.session.rangeCount st.session.workers := by
      simp [Program.shown, Cracker2.start, Program.session, phase.missing]
    rw [begins]
    exact .start
  | closed =>
    obtain rfl := Option.some.inj released
    -- Without a task, they are let go to find that.
    exact ⟨fun _ => .inl rfl, phase.pending, phase.read⟩
  | _ => cases released

/-- The other variables stay what was scanned, whatever happens in the round. -/
theorem Program.session_along {scanned : Session threads}
    (same : st.session = scanned.along st.round) (round : Round threads) :
    ({ st with round := round } : Program threads).session = scanned.along round := by
  simp only [session, Session.along, Session.mk.injEq] at same ⊢
  exact ⟨same.1, same.2.1, same.2.2.1, trivial, trivial, same.2.2.2.2.2⟩

/-- A worker that begins is shown as it was. -/
theorem Program.shown_task (here : st.spot thread = .testing) :
    ({ st.goto thread .searching with
      round := st.round.goto thread { st.round.workers thread with place := .reset } } :
        Program threads).shown = st.shown := by
  simp only [shown, goto, Round.goto, Round.mk.injEq, true_and]
  funext other
  -- Before, it was shown at its start, and there it is now.
  by_cases mine : other = thread
  · subst mine
    simp [here]
  · simp [Function.update_of_ne mine]

/-- Where only the spot of a worker changes that has begun, it is shown as it was. -/
theorem Program.shown_goto {spot : Spot} (here : st.spot thread ≠ .testing)
    (there : spot ≠ .testing) : (st.goto thread spot).shown = st.shown := by
  simp only [shown, goto, Round.mk.injEq, true_and]
  funext other
  by_cases mine : other = thread
  · subst mine
    simp [here, there]
  · simp [Function.update_of_ne mine]

/-- A step of a worker that searches is one of what is shown. -/
theorem Program.shown_search {round : Round threads} {password knownpass : List UInt8}
    (here : st.spot thread = .searching)
    (stepped : Step utils password knownpass st.round thread round) :
    Step utils password knownpass st.shown thread
      ({ st with round := round } : Program threads).shown := by
  obtain ⟨worker, moved, frame⟩ := stepped.frame
  have begun := frame st.shown.workers (by simp [shown, here])
  have same : ({ st with round := round } : Program threads).shown =
      { round with workers := Function.update st.shown.workers thread worker } := by
    simp only [shown, Round.mk.injEq, true_and, moved]
    funext other
    by_cases mine : other = thread
    · subst mine
      simp [here]
    · simp [Function.update_of_ne mine]
  rw [same]
  exact begun

/-- A worker goes on in a round that is shown as before, or as it is after a step. -/
theorem Searching.goto (searching : Searching utils session opened st)
    (pending : after.taskPending = true)
    (others : ∀ other, other ≠ thread →
      after.spot other = st.spot other ∧ after.round.workers other = st.round.workers other)
    (own : after.spot thread = .searching ∨ (after.spot thread = .ended ∧
      ∃ threadStatus, (after.round.workers thread).place = .done threadStatus))
    (same : ∀ scanned : Session threads, st.session = scanned.along st.round →
      after.session = scanned.along after.round ∧
        (after.shown = st.shown ∨
          ∃ thread, Step utils scanned.password scanned.knownpass st.shown thread after.shown)) :
    Searching utils session opened after := by
  refine ⟨pending, fun other => ?_, ?_⟩
  · -- Only one worker moves.
    by_cases mine : other = thread
    · subst mine
      exact .inr own
    · rw [(others other mine).1, (others other mine).2]
      exact searching.spots other
  · obtain ⟨command, scanned, steps, line, scans, along, run⟩ := searching.searches
    obtain ⟨along, shown | ⟨worker, stepped⟩⟩ := same scanned along
    · -- The round is where it was, or a step further.
      exact ⟨command, scanned, steps, line, scans, along, shown ▸ run⟩
    · exact ⟨command, scanned, _, line, scans, along, run.next stepped⟩

/-- Workers search between the barriers only. -/
theorem Phase.searching (phase : Phase utils session opened st main)
    (here : st.spot thread = .searching) :
    (main = .ending ∨ main = .ended) ∧ Searching utils session opened st := by
  -- In the other phases, no worker is between the barriers.
  cases main with
  | ending => exact ⟨.inl rfl, phase⟩
  | ended => exact ⟨.inr rfl, phase⟩
  | joining => rcases phase.spots thread with spot | spot <;> rw [here] at spot <;> cases spot
  | finished =>
    have spot := phase.exited thread
    rw [here] at spot
    cases spot
  | _ => exact absurd here phase.waits.spot_ne.2

/-- With a task they also begin there only. -/
theorem Phase.begins (phase : Phase utils session opened st main)
    (here : st.spot thread = .testing) (pending : st.taskPending = true) :
    (main = .ending ∨ main = .ended) ∧ Searching utils session opened st := by
  cases main with
  | ending => exact ⟨.inl rfl, phase⟩
  | ended => exact ⟨.inr rfl, phase⟩
  | joining =>
    -- When they leave, there is no task any more.
    have task := phase.pending
    rw [pending] at task
    cases task
  | finished =>
    have spot := phase.exited thread
    rw [here] at spot
    cases spot
  | _ => exact absurd here phase.waits.spot_ne.1

/-- Between the barriers, it is enough that the workers search. -/
theorem Searching.phase (searching : Searching utils session opened st)
    (between : main = .ending ∨ main = .ended) : Phase utils session opened st main := by
  rcases between with rfl | rfl <;> exact searching

/-- A worker finds a task, as it was shown. -/
theorem Phase.task (phase : Phase utils session opened st main) (here : st.spot thread = .testing)
    (pending : st.taskPending = true) :
    Phase utils session opened
      { st.goto thread .searching with
        round := st.round.goto thread { st.round.workers thread with place := .reset } } main := by
  obtain ⟨between, searching⟩ := phase.begins here pending
  refine Searching.phase (searching.goto pending (fun other apart => ?_)
    (.inl (st.goto_spot thread _)) fun scanned along => ?_) between
  · exact ⟨Program.goto_spot_of_ne apart, Function.update_of_ne apart _ _⟩
  · exact ⟨Program.session_along along _, .inl (Program.shown_task here)⟩

/-- A worker makes a step of its search. -/
theorem Phase.search {round : Round threads} (phase : Phase utils session opened st main)
    (here : st.spot thread = .searching)
    (stepped : Step utils st.password st.knownpass st.round thread round) :
    Phase utils session opened { st with round := round } main := by
  obtain ⟨between, searching⟩ := phase.searching here
  refine Searching.phase (searching.goto searching.pending (fun other apart => ⟨rfl, ?_⟩)
    (.inl here) fun scanned along => ?_) between
  · obtain ⟨worker, moved, _⟩ := stepped.frame
    show round.workers other = _
    rw [moved, Function.update_of_ne apart]
  · -- The password and its known part are those that were scanned.
    have password : st.password = scanned.password := congrArg Session.password along
    have knownpass : st.knownpass = scanned.knownpass := congrArg Session.knownpass along
    rw [password, knownpass] at stepped
    exact ⟨Program.session_along along _, .inr ⟨thread, Program.shown_search here stepped⟩⟩

/-- A worker comes to `end_barrier`. -/
theorem Phase.searched {threadStatus : Nat} (phase : Phase utils session opened st main)
    (here : st.spot thread = .searching)
    (done : (st.round.workers thread).place = .done threadStatus) :
    Phase utils session opened (st.goto thread .ended) main := by
  obtain ⟨between, searching⟩ := phase.searching here
  refine Searching.phase (searching.goto searching.pending (fun other apart => ?_)
    (.inr ⟨st.goto_spot thread _, threadStatus, done⟩) fun scanned along => ?_) between
  · exact ⟨Program.goto_spot_of_ne apart, rfl⟩
  · refine ⟨along, .inl (Program.shown_goto ?_ (by decide))⟩
    rw [here]
    decide

/-- All leave `end_barrier`, and the round is over. -/
theorem Searching.ends (searching : Searching utils session opened st)
    (all : ∀ thread, st.spot thread = .ended) :
    Over utils session opened { st with main := .summing, spot := fun _ => .starting } := by
  obtain ⟨command, scanned, steps, line, scans, along, run⟩ := searching.searches
  -- All workers have begun, so they are shown where they are.
  have same : st.shown = st.round := by
    simp [Program.shown, all]
  refine ⟨fun _ => .inl rfl, ⟨command, steps⟩, scanned, line, along, scans, same ▸ run, ?_⟩
  intro thread
  rcases searching.spots thread with here | here | ⟨_, done⟩
  · rw [all] at here
    cases here
  · rw [all] at here
    cases here
  · exact done

/-- A worker finds no task, and leaves. -/
theorem Phase.noTask (phase : Phase utils session opened st main) (here : st.spot thread = .testing)
    (pending : st.taskPending = false) :
    Phase utils session opened (st.goto thread .exited) main := by
  cases main with
  | joining =>
    refine ⟨fun other => ?_, phase.pending, phase.read⟩
    by_cases mine : other = thread
    · subst mine
      exact .inr (st.goto_spot _ _)
    · rw [Program.goto_spot_of_ne mine]
      exact phase.spots other
  | ending | ended =>
    -- As long as a round lasts, there is a task.
    have task := phase.pending
    rw [pending] at task
    cases task
  | finished =>
    have spot := phase.exited thread
    rw [here] at spot
    cases spot
  | _ => exact absurd here phase.waits.spot_ne.1

end Phases

section Program

variable {utils : Utils} {session : Session threads} {lines opened : List (List UInt8)}
  {rounds : List (Transition (Session threads) (UserRound threads))} {st after : Program threads}
  {actor : Actor threads} {trace : List (Transition (Program threads) (Actor threads))}

/-- The program has gone through some rounds, as one after the other. -/
structure Kept (utils : Utils) (lines : List (List UInt8))
    (rounds : List (Transition (Session threads) (UserRound threads))) (session : Session threads)
    (opened : List (List UInt8)) (st : Program threads) : Prop where
  run : Run (Summarised utils) (launch threads) rounds session
  printed : st.printed = rounds.map summaryOf
  order : (rounds.map fun taken => taken.action.command) ++ opened ++ st.input = lines
  phase : Phase utils session opened st st.main

/-- The summary ends a round. -/
theorem Kept.summary {total : Nat} (kept : Kept utils lines rounds session opened st)
    (here : st.main = .summing)
    (sum : sumHashes st.round.workers st.overallHashCount = some total) :
    ∃ rounds session opened, Kept utils lines rounds session opened
      { st with
        overallHashCount := total
        printed := st.printed ++ [⟨st.userName, st.round.decryptedPassword, total⟩]
        main := .reading } := by
  have phase := kept.phase
  rw [here] at phase
  -- The main thread sums the counts of the round that is just over.
  obtain ⟨round, scanned, rfl, along, played⟩ := phase.played
  -- The round has changed none of what was scanned.
  have userName : st.userName = scanned.userName := congrArg Session.userName along
  have overall : st.overallHashCount = scanned.overallHashCount :=
    congrArg Session.overallHashCount along
  have ends : Summarised utils session round (scanned.summarise st.round total) :=
    ⟨scanned, st.round, total, played, overall ▸ sum, rfl⟩
  refine ⟨_, _, [], kept.run.next ends, ?_, ?_, phase.waits, ?_, rfl⟩
  · have found : round.found = st.round.decryptedPassword := found_eq played.run
    rw [kept.printed, List.map_append, List.map_singleton, summaryOf, found, userName]
    rfl
  · rw [← kept.order, List.map_append, List.append_nil]
    rfl
  · -- Only the total is new in what is kept from line to line.
    have same : ({ st.session with overallHashCount := total } : Session threads) =
        scanned.summarise st.round total := by
      rw [along]
      rfl
    exact same

/-- Every step keeps the program within its rounds. -/
theorem Kept.step (kept : Kept utils lines rounds session opened st)
    (step : ProgramStep utils st actor after) :
    ∃ rounds session opened, Kept utils lines rounds session opened after := by
  obtain ⟨run, printed, order, phase⟩ := kept
  cases step with
  | @line command rest scanned here input scans =>
    rw [here] at phase
    obtain ⟨waits, rfl, rfl⟩ := phase
    -- A line begins a round, and nothing is printed yet.
    refine ⟨rounds, _, [command], run, printed, ?_, waits, rfl, rfl, command, rfl, ?_⟩
    · rw [← order, input, List.append_nil, List.append_assoc]
      rfl
    · -- A line changes no other variable.
      rw [scans, Option.some.injEq]
      simp only [Session.scan] at scans
      split at scans
      · cases scans
      · obtain rfl := Option.some.inj scans
        rfl
  | noLine here input =>
    rw [here] at phase
    exact ⟨rounds, session, opened, run, printed, order, phase.waits, rfl, by
      rw [phase.none, input]; rfl⟩
  | mainArrives arrives =>
    exact ⟨rounds, session, opened, run, printed, order, phase.mainArrives arrives⟩
  | arrives here => exact ⟨rounds, session, opened, run, printed, order, phase.arrives here⟩
  | start released _ =>
    exact ⟨rounds, session, opened, run, printed, order, phase.start released⟩
  | task here pending =>
    exact ⟨rounds, session, opened, run, printed, order, phase.task here pending⟩
  | noTask here pending =>
    exact ⟨rounds, session, opened, run, printed, order, phase.noTask here pending⟩
  | search here stepped =>
    exact ⟨rounds, session, opened, run, printed, order, phase.search here stepped⟩
  | searched here done =>
    exact ⟨rounds, session, opened, run, printed, order, phase.searched here done⟩
  | finish here all =>
    rw [here] at phase
    exact ⟨rounds, session, opened, run, printed, order, phase.ends all⟩
  | summary here sum => exact Kept.summary ⟨run, printed, order, phase⟩ here sum
  | join here all =>
    rw [here] at phase
    exact ⟨rounds, session, opened, run, printed, order, all, phase.read⟩

/-- So does every run. -/
theorem kept_of_run (run : Run (ProgramStep utils) (Program.launch threads lines) trace st) :
    ∃ rounds session opened, Kept utils lines rounds session opened st := by
  refine @Run.invariant _ _ _ _ _ _ (fun st =>
    ∃ rounds session opened, Kept utils lines rounds session opened st) run ?_ ?_
  · -- At first no line is read, and all workers come to the barrier.
    exact ⟨[], launch threads, [], .start, rfl, rfl, fun _ => .inl rfl, rfl, rfl⟩
  · rintro before actor after ⟨rounds, session, opened, kept⟩ step
    exact kept.step step

/-- No thread can go on. -/
def Program.Stuck (utils : Utils) (st : Program threads) : Prop :=
  ∀ actor after, ¬ ProgramStep utils st actor after

/-- The main thread is at a statement that is undefined: too long a word, or too large a sum. -/
def Program.Undefined (st : Program threads) : Prop :=
  (st.main = .reading ∧ ∃ command rest, st.input = command :: rest ∧
    st.session.scan command = none) ∨
  (st.main = .summing ∧ sumHashes st.round.workers st.overallHashCount = none)

/-- Where no thread can go on, all workers are at `start_barrier`, if they come to it. -/
theorem Program.Waits.started (waits : st.Waits) (stuck : st.Stuck utils) (thread : Fin threads) :
    st.spot thread = .started := by
  rcases waits thread with here | here
  · exact absurd (.arrives here) (stuck _ _)
  · exact here

/-- Or at `end_barrier`. -/
theorem Searching.ended (searching : Searching utils session opened st) (stuck : st.Stuck utils)
    (thread : Fin threads) : st.spot thread = .ended := by
  rcases searching.spots thread with here | here | ⟨here, _⟩
  · exact absurd (.task here searching.pending) (stuck _ _)
  · -- A worker that searches has a next step, or is done.
    rcases exists_turn utils st.password st.knownpass st.round thread with ⟨_, done⟩ | ⟨_, goes⟩
    · exact absurd (.searched here done) (stuck _ _)
    · exact absurd (.search here goes) (stuck _ _)
  · exact here

/-- No thread waits for ever: only at the end none can go on, or where the program is undefined. -/
theorem Phase.finished (phase : Phase utils session opened st st.main) (stuck : st.Stuck utils) :
    (st.main = .finished ∧ (∀ thread, st.spot thread = .exited) ∧ opened ++ st.input = []) ∨
      st.Undefined := by
  -- The main thread waits at a barrier only until all workers are there.
  cases here : st.main with
  | reading =>
    cases input : st.input with
    | nil => exact absurd (.noLine here input) (stuck _ _)
    | cons command rest =>
      cases scans : st.session.scan command with
      | none => exact .inr (.inl ⟨here, command, rest, input, scans⟩)
      | some scanned => exact absurd (.line here input scans) (stuck _ _)
  | starting | ending | closing => exact absurd (.mainArrives (by rw [here]; rfl)) (stuck _ _)
  | started | closed =>
    rw [here] at phase
    exact absurd (.start (by rw [here]; rfl) (phase.waits.started stuck)) (stuck _ _)
  | ended =>
    rw [here] at phase
    exact absurd (.finish here (phase.ended stuck)) (stuck _ _)
  | summing =>
    cases sum : sumHashes st.round.workers st.overallHashCount with
    | none => exact .inr (.inr ⟨here, sum⟩)
    | some total => exact absurd (.summary here sum) (stuck _ _)
  | joining =>
    rw [here] at phase
    refine absurd (.join here fun thread => ?_) (stuck _ _)
    rcases phase.spots thread with testing | exited
    · exact absurd (.noTask testing phase.pending) (stuck _ _)
    · exact exited
  | finished =>
    rw [here] at phase
    exact .inl ⟨rfl, phase.exited, phase.read⟩

/--
For any lines, any number of threads and every interleaving, the runs of the program are bounded, and
the workers search only while the main thread is between the barriers. What is printed are the
summaries of rounds that are played one after the other, each with the variables that the last one
left, one for each line that was read, in order; a password that is printed has the hash of its line.
Where no thread can go on, the program is at its end, with a round for each line, or it is undefined.
-/
theorem rounds_in_lockstep (utils : Utils) (threads : Nat) (lines : List (List UInt8)) :
    ∃ bound, ∀ (trace : List (Transition (Program threads) (Actor threads))) (st : Program threads),
      Run (ProgramStep utils) (Program.launch threads lines) trace st →
      trace.length ≤ bound ∧
      (∀ thread, st.spot thread = .searching → st.main = .ending ∨ st.main = .ended) ∧
      ∃ rounds session opened, Run (Summarised utils) (launch threads) rounds session ∧
        st.printed = rounds.map summaryOf ∧
        (rounds.map fun taken => taken.action.command) ++ opened ++ st.input = lines ∧
        opened.length ≤ 1 ∧
        (∀ taken ∈ rounds, ∀ word, (summaryOf taken).decryptedPassword = some word →
          utils.crypt word = taken.after.password) ∧
        (st.Stuck utils → (st.main = .finished ∧ (∀ thread, st.spot thread = .exited) ∧
          (rounds.map fun taken => taken.action.command) = lines) ∨ st.Undefined) := by
  obtain ⟨limit, covers⟩ := exists_covers utils threads
  refine ⟨_, fun trace st run => ⟨program_length_le covers run, ?_, ?_⟩⟩
  · obtain ⟨rounds, session, opened, kept⟩ := kept_of_run run
    exact fun thread here => (kept.phase.searching here).1
  · obtain ⟨rounds, session, opened, kept⟩ := kept_of_run run
    refine ⟨rounds, session, opened, kept.run, kept.printed, kept.order, kept.phase.opened_le, ?_,
      fun stuck => ?_⟩
    · -- Each round ends in a state of its own run.
      intro taken member word found
      obtain ⟨⟨scanned, final, total, played, _, ends⟩, _⟩ := kept.run.split_at member
      have equal : taken.action.found = final.decryptedPassword := found_eq played.run
      have kept : taken.after.password = scanned.password := by
        rw [ends]
        rfl
      rw [kept]
      exact found_right played.run word (equal ▸ found)
    · -- At the end no line is at work and none is left.
      rcases kept.phase.finished stuck with ⟨ends, exited, read⟩ | undefined
      · have order := kept.order
        rw [List.append_assoc, read, List.append_nil] at order
        exact .inl ⟨ends, exited, order⟩
      · exact .inr undefined

/-- At its end the program makes no more steps. -/
theorem stuck_of_finished (here : st.main = .finished)
    (exited : ∀ thread, st.spot thread = .exited) : st.Stuck utils := by
  intro actor after step
  cases step with
  | line reading | noLine reading | finish reading | summary reading | join reading =>
    rw [here] at reading
    cases reading
  | mainArrives arrives =>
    rw [here] at arrives
    cases arrives
  | start released =>
    rw [here] at released
    cases released
  | arrives spot | task spot | noTask spot | search spot | searched spot =>
    rw [exited] at spot
    cases spot

/-- One thread searches for one password, whose only candidate is wrong. -/
theorem rounds_in_lockstep_single : ∃ (st : Program 1)
    (rounds : List (Transition (Session 1) (UserRound 1))) (session : Session 1),
    Run (Summarised sampleUtils) (launch 1) rounds session ∧
      (rounds.map fun taken => taken.action.command) = [missedLine] ∧
      st.printed = [⟨[117], none, 1⟩] ∧ st.printed = rounds.map summaryOf := by
  have line := (@Run.start _ _ (ProgramStep sampleUtils)
    (Program.launch 1 [missedLine])).next (.line rfl rfl rfl)
  have started := ((line.next (@ProgramStep.arrives _ _ _ 0 rfl)).next (.mainArrives rfl)).next
    (.start rfl (by decide))
  have begun := (started.next (@ProgramStep.task _ _ _ 0 rfl rfl)).next (.mainArrives rfl)
  -- The worker asks for its subrange, hashes the only candidate, and is behind the last one.
  have asked := (begun.next (@ProgramStep.search _ _ _ 0 _ rfl rfl)).next
    (@ProgramStep.search _ _ _ 0 _ rfl rfl)
  have hashed := ((asked.next (@ProgramStep.search _ _ _ 0 _ rfl rfl)).next
    (@ProgramStep.search _ _ _ 0 _ rfl rfl)).next (@ProgramStep.search _ _ _ 0 _ rfl rfl)
  have searched := (hashed.next (@ProgramStep.search _ _ _ 0 _ rfl rfl)).next
    (@ProgramStep.searched _ _ _ 0 _ rfl rfl)
  have printed := (searched.next (.finish rfl (by decide))).next (.summary rfl rfl)
  have closed := ((printed.next (.noLine rfl rfl)).next (@ProgramStep.arrives _ _ _ 0 rfl)).next
    (.mainArrives rfl)
  have run := ((closed.next (.start rfl (by decide))).next
    (@ProgramStep.noTask _ _ _ 0 rfl rfl)).next (.join rfl (by decide))
  -- The theorem says which rounds were played, and how many.
  obtain ⟨bound, all⟩ := rounds_in_lockstep sampleUtils 1 [missedLine]
  obtain ⟨_, _, rounds, session, _, rounds_run, same, _, _, _, ends⟩ := all _ _ run
  rcases ends (stuck_of_finished rfl (by decide)) with ⟨_, _, order⟩ | ⟨here, _⟩ | ⟨here, _⟩
  · exact ⟨_, rounds, session, rounds_run, order, by decide, same⟩
  · cases here
  · cases here

end Program

end SystemProgramming.PasswordCracker.Cracker2
