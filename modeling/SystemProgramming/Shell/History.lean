import SystemProgramming.Foundations.Runs
import SystemProgramming.Shell.ShortCircuit

/-! The history of the shell as a log of the lines that were entered. -/

namespace SystemProgramming.Shell

open Foundations

section Claims

/-- A line of input that is executed and returns; it lies in the buffer. -/
def Step (world : World) (st : State) (line : Line) (st' : State) : Prop :=
  ∃ fuel value, commandExec world fuel .buffer { st with buffer := line } = .ok (value, st')

/-- `!history`, `#n`, `!prefix` and `exit` are not to be stored. -/
def Exempt (line : Line) : Prop :=
  findOperator line = none ∧ ∃ name arguments, words line = name :: arguments ∧
    (name.head? = some '#' ∨ name.head? = some '!' ∨ name = ['e', 'x', 'i', 't'])

/--
The history has grown by the entries that were run again, in full, and then by the line itself as it
was entered, if that is to be stored.
-/
def Logged (st st' : State) (line : Line) : Prop :=
  ∃ events stored, st'.log = st.log ++ events ∧
    st'.history = st.history ++ entries events ++ stored ∧
    (Exempt line → stored = []) ∧ (¬ Exempt line → stored = [line])

/-- An external command that is waited for and exits with a status that is not 0. -/
def Fails (world : World) (log : List Event) (command : Line) : Prop :=
  External (words command) ∧ (checkBackground (words command)).1 = false ∧
    ∃ status, status ≠ 0 ∧
      endingOf world (log ++ [.starts command]) (words command) = .exited status

/-- Which commands of a line with an operator come to run. -/
def Operator.RunsSecond (world : World) (log : List Event) (first : Line) : Operator → Prop
  | and => ¬ Fails world log first
  | or => Fails world log first
  | sequence => True
  | write | append | read => False

/--
A line that runs no entry again is stored as it is if it has no space behind its first word, or an
operator; if the last of its commands that runs, and does not leave the mark alone, sets it; and if the
file of a redirection opens.
-/
structure Recorded (world : World) (log : List Event) (history : List Line) (mark : Bool)
    (line : Line) : Prop where
  simple : findOperator line = none → reexecuted history (words line) = none ∧
    tokenised line = line ∧ markAfter mark (words line) = true
  first : ∀ operator place, findOperator line = some (operator, place) →
    reexecuted history (words (line.take place)) = none
  second : ∀ operator place, findOperator line = some (operator, place) →
    operator.RunsSecond world log (line.take place) →
    reexecuted history (words (line.drop (place + 2))) = none ∧
      markAfter (markAfter mark (words (line.take place))) (words (line.drop (place + 2))) = true
  alone : ∀ operator place, findOperator line = some (operator, place) →
    ¬ operator.Redirects → ¬ operator.RunsSecond world log (line.take place) →
    markAfter mark (words (line.take place)) = true
  opens : ∀ operator place, findOperator line = some (operator, place) →
    operator.Redirects → Opens world log operator (line.drop (place + 2))

/-- The entry that a command runs again would be stored as it is. -/
def AgainRecorded (world : World) (st : State) (command : Line) : Prop :=
  ∀ idx entry, reexecuted st.history (words command) = some idx → st.history[idx]? = some entry →
    Recorded world (st.log ++ [.starts command, .command entry]) st.history st.addHistory entry

/-- The lines that are logged rightly. -/
inductive Meets (world : World) (st : State) (line : Line) : Prop where
  | stored (needed : ¬ Exempt line)
      (recorded : Recorded world st.log st.history st.addHistory line)
  | exempt (exempt : Exempt line) (again : AgainRecorded world st line)
      (unmarked : reexecuted st.history (words line) = none →
        markAfter st.addHistory (words line) = false)
  | redirected (operator : Operator) (place : Nat)
      (found : findOperator line = some (operator, place)) (redirects : operator.Redirects)
      (opens : Opens world st.log operator (line.drop (place + 2)))
      (again : AgainRecorded world st (line.take place))

end Claims

section Parts

variable {world : World} {again : Exec} {st st' : State} {place : Place} {command line : Line}
  {ret : Int × Int} {value ended : Int}

/-- A buffer or an entry holds the same line as long as entries are only added. -/
theorem string_of_added {printed : List Line}
    (whole : place = .buffer ∨ ∃ idx, place = .entry idx) (held : st.string place = some line)
    (history : st'.history = st.history ++ printed) (buffer : st'.buffer = st.buffer) :
    st'.string place = some line := by
  rcases whole with rfl | ⟨idx, rfl⟩
  · exact (congrArg some buffer).trans held
  · have there : st.history[idx]? = some line := held
    obtain ⟨inside, _⟩ := List.getElem?_eq_some_iff.mp there
    show st'.history[idx]? = some line
    rw [history, List.getElem?_append_left inside, there]

/-- An external command always marks the line. -/
theorem markAfter_external {argv : List Line} (external : External argv) (mark : Bool) :
    markAfter mark argv = true := by
  cases argv with
  | nil => exact external.elim
  | cons name arguments =>
    obtain ⟨_, digitless, textless, stays, _⟩ := external
    have different : name ≠ ['#'] := fun same => digitless (by rw [same]; rfl)
    rw [markAfter, if_neg different, if_neg (by simp only [digitless, textless, stays, or_self,
      not_false_eq_true])]

/-- A simple command that runs no entry again, in a place that does not change the history. -/
theorem runSimple_done (held : st.string place = some command)
    (same : (st.overwrite (tokenised command) place).history = st.history)
    (no_entry : reexecuted st.history (words command) = none)
    (returns : runSimple world again place st = .ok (ret, st')) :
    Done (st.overwrite (tokenised command) place) st'
        (markAfter st.addHistory (words command)) ∧
      (ret.2 = 0 ∨ ret.2 = 1) ∧ (ret.2 = 1 ↔ Fails world st.log command) := by
  have history : (st.started command place).history = st.history := by
    rw [← same]
    cases place <;> rfl
  have mark : (st.started command place).addHistory = st.addHistory := by cases place <;> rfl
  have log : (st.started command place).log = st.log ++ [.starts command] := by
    cases place <;> rfl
  have origin : Done (st.overwrite (tokenised command) place) (st.started command place)
      st.addHistory := by
    cases place <;> exact ⟨⟨rfl, rfl, rfl, rfl⟩, ⟨[.starts command], rfl, rfl⟩, rfl⟩
  rw [← history] at no_entry
  rcases (@runSimple_eq_ok _ _ st st' command place ret.1 ret.2 held).mp returns with
    ⟨known, zero, buildin⟩ | ⟨_, middle, buildin, forked⟩
  · rcases execBuildin_done no_entry buildin with ⟨two, _⟩ | ⟨_, internal, done⟩
    · exact absurd two known
    · rw [mark] at done
      refine ⟨origin.trans done, .inl zero, ?_⟩
      rw [zero]
      exact iff_of_false (by decide) fun fails => internal fails.1
  · rcases execBuildin_done no_entry buildin with ⟨_, external, rfl⟩ | ⟨other, _⟩
    · obtain ⟨done, code⟩ := makeFork_done forked
      rw [markAfter_external external]
      refine ⟨origin.trans done, ?_⟩
      rw [log] at code
      -- Only a child that was waited for and exits with another status fails.
      rcases code with ⟨zero, background | killed⟩ | ⟨foreground, status, ended, exit⟩
      · exact ⟨.inl zero, by simp [zero, Fails, background]⟩
      · exact ⟨.inl zero, by simp [zero, Fails, killed]⟩
      · by_cases zero : status = 0
        · rw [if_pos zero] at exit
          exact ⟨.inl exit, by simp [exit, Fails, ended, zero]⟩
        · rw [if_neg zero] at exit
          exact ⟨.inr exit, by simp [exit, Fails, external, foreground, ended, zero]⟩
    · exact absurd rfl other

/-- The end of `command_exec` stores a marked line, and does nothing else to the history. -/
theorem finish_done (held : st.string place = some line)
    (returns : finish place value st = .ok (ended, st')) :
    st'.history = (if st.addHistory then st.history ++ [line] else st.history) ∧
      st'.log = st.log ∧ st'.buffer = st.buffer := by
  rw [finish, get_eq_ok.mpr held] at returns
  obtain ⟨rfl, rfl⟩ := Prod.mk.inj (Except.ok.inj returns)
  exact ⟨rfl, rfl, rfl⟩

/-- The line has been stored behind the entries that were run again, and is still in its buffer. -/
structure Appends (st st' : State) (line : Line) (printed : List Line) : Prop where
  history : st'.history = st.history ++ printed ++ [line]
  log : ∃ events, st'.log = st.log ++ events ∧ entries events = printed
  buffer : st'.buffer = st.buffer

/-- Entries were printed and stored, and nothing else but the parts of the line has changed. -/
structure Prints (st st' : State) (printed : List Line) (mark : Bool) : Prop where
  history : st'.history = st.history ++ printed
  buffer : st'.buffer = st.buffer
  log : ∃ events, st'.log = st.log ++ events ∧ entries events = printed
  mark : st'.addHistory = mark

theorem Done.prints {mark : Bool} (done : Done st st' mark) : Prints st st' [] mark :=
  ⟨by rw [done.same.history, List.append_nil], done.same.buffer, done.log, done.mark⟩

theorem Prints.trans {middle : State} {printed printed' : List Line} {mark mark' : Bool}
    (one : Prints st middle printed mark) (other : Prints middle st' printed' mark') :
    Prints st st' (printed ++ printed') mark' := by
  obtain ⟨events, log, found⟩ := one.log
  obtain ⟨events', log', found'⟩ := other.log
  refine ⟨?_, other.buffer.trans one.buffer, ⟨events ++ events', ?_, ?_⟩, other.mark⟩
  · rw [other.history, one.history, List.append_assoc]
  · rw [log', log, List.append_assoc]
  · rw [entries_append, found, found']

/-- A marked line is stored at the end. -/
theorem Prints.appends {printed : List Line}
    (whole : place = .buffer ∨ ∃ idx, place = .entry idx) (held : st.string place = some line)
    {middle : State} (prints : Prints st middle printed true)
    (returns : finish place value middle = .ok (ended, st')) : Appends st st' line printed := by
  obtain ⟨history, log, buffer⟩ :=
    finish_done (string_of_added whole held prints.history prints.buffer) returns
  rw [if_pos prints.mark, prints.history] at history
  obtain ⟨events, log', found⟩ := prints.log
  exact ⟨history, ⟨events, log.trans log', found⟩, buffer.trans prints.buffer⟩

/-- A part of the line that runs no entry again. -/
theorem runPart_prints (part : place = .first ∨ place = .second)
    (held : st.string place = some command)
    (no_entry : reexecuted st.history (words command) = none)
    (returns : runSimple world again place st = .ok (ret, st')) :
    Prints st st' [] (markAfter st.addHistory (words command)) ∧
      (ret.2 = 0 ∨ ret.2 = 1) ∧ (ret.2 = 1 ↔ Fails world st.log command) ∧
      (place = .first → st'.secondCommand = st.secondCommand) := by
  rcases part with rfl | rfl
  · obtain ⟨done, codes, fails⟩ := runSimple_done held rfl no_entry returns
    have prints := done.prints
    exact ⟨⟨prints.history, prints.buffer, prints.log, prints.mark⟩, codes, fails,
      fun _ => done.same.second⟩
  · obtain ⟨done, codes, fails⟩ := runSimple_done held rfl no_entry returns
    have prints := done.prints
    exact ⟨⟨prints.history, prints.buffer, prints.log, prints.mark⟩, codes, fails, by simp⟩

/-- Two parts of a line, of which the second one runs in some cases. -/
theorem parts_append {first second : Line} {runs : Prop} [Decidable runs]
    (whole : place = .buffer ∨ ∃ idx, place = .entry idx) (held : st.string place = some line)
    (held₁ : st.firstCommand = some first) (held₂ : st.secondCommand = some second)
    (no_entry : reexecuted st.history (words first) = none)
    (both : runs → reexecuted st.history (words second) = none ∧
      markAfter (markAfter st.addHistory (words first)) (words second) = true)
    (alone : ¬ runs → markAfter st.addHistory (words first) = true)
    {middle : State} (ran : runSimple world again .first st = .ok (ret, middle))
    (returns : (if runs then runSimple world again .second middle >>= fun result =>
      finish place value result.2 else finish place value middle) = .ok (ended, st')) :
    Appends st st' line [] := by
  obtain ⟨prints, _, _, second_same⟩ := runPart_prints (.inl rfl) held₁ no_entry ran
  have history : middle.history = st.history := prints.history.trans (List.append_nil _)
  have held' : middle.string .second = some second := (second_same rfl).trans held₂
  -- Whether the line is to be stored is told by the parts that ran.
  by_cases run : runs
  · rw [if_pos run] at returns
    obtain ⟨⟨ret', last⟩, ran', rest⟩ := bind_eq_ok.mp returns
    obtain ⟨none', marked⟩ := both run
    rw [← history] at none'
    obtain ⟨prints', _⟩ := runPart_prints (.inr rfl) held' none' ran'
    rw [prints.mark, marked] at prints'
    exact (prints.trans prints').appends whole held rest
  · rw [if_neg run] at returns
    rw [alone run] at prints
    exact prints.appends whole held returns

/-- A redirection whose file opens is stored, behind what its command has printed. -/
theorem redirect_appends {second : Line} {operator : Operator} (Allowed : List Line → Prop)
    (whole : place = .buffer ∨ ∃ idx, place = .entry idx) (held : st.string place = some line)
    (held₂ : st.secondCommand = some second) (opens : Opens world st.log operator second)
    (runs : ∀ {before middle : State} {ret : Int × Int},
      Aside { st with secondCommand := some (tokenised second) } before →
      runSimple world again .first before = .ok (ret, middle) →
      ∃ printed mark, Allowed printed ∧ Prints st middle printed mark)
    (returns : redirect world again place operator st = .ok (ended, st')) :
    ∃ printed, Allowed printed ∧ Appends st st' line printed := by
  obtain ⟨before, restored, aside, keeps, same⟩ :=
    @redirect_opens world again st second operator place held₂ opens
  rw [same] at returns
  obtain ⟨⟨ret, middle⟩, ran, rest⟩ := bind_eq_ok.mp returns
  obtain ⟨printed, mark, allowed, prints⟩ := runs aside ran
  -- The line is marked behind the command, whatever that was.
  have kept := keeps middle
  have marked : Prints st (restored middle) printed true :=
    ⟨kept.same.history.trans prints.history, kept.same.buffer.trans prints.buffer,
      by rw [kept.log]; exact prints.log, kept.mark⟩
  exact ⟨printed, allowed, marked.appends whole held rest⟩

theorem aside_prints {second : Line}
    (aside : Aside { st with secondCommand := some second } st') :
    Prints st st' [] st.addHistory :=
  ⟨by rw [aside.same.history, List.append_nil], aside.same.buffer,
    ⟨[], by rw [aside.log, List.append_nil], rfl⟩, aside.mark⟩

theorem overwrite_self (held : st.string place = some line) : st.overwrite line place = st := by
  cases place with
  | buffer => exact congrArg (fun line => { st with buffer := line }) (Option.some.inj held).symm
  | first => exact congrArg (fun line => { st with firstCommand := line }) held.symm
  | second => exact congrArg (fun line => { st with secondCommand := line }) held.symm
  | entry idx =>
    have there : st.history[idx]? = some line := held
    obtain ⟨inside, same⟩ := List.getElem?_eq_some_iff.mp there
    have unchanged : st.history.set idx line = st.history := by rw [← same, List.set_getElem_self]
    exact congrArg (fun history => { st with history := history }) unchanged

/-- The state behind `symbolic_dicide`, for a line with an operator. -/
def State.split (st : State) (line : Line) (position : Nat) : State :=
  { st with
    firstCommand := some (line.take position), secondCommand := some (line.drop (position + 2)) }

/-- A line is one simple command, or what `symbolic_dicide` finds in it. -/
theorem commandBody_cases (held : st.string place = some line)
    (returns : commandBody world again place st = .ok (ended, st')) :
    (findOperator line = none ∧ commandFlag world again place none st = .ok (ended, st')) ∨
      ∃ operator position, findOperator line = some (operator, position) ∧
        commandFlag world again place (some operator) (st.split line position) =
          .ok (ended, st') := by
  rw [commandBody, get_eq_ok.mpr held] at returns
  change (symbolicDicide line st >>= _) = _ at returns
  obtain ⟨⟨flag, middle⟩, decided, rest⟩ := bind_eq_ok.mp returns
  rw [symbolicDicide] at decided
  split at decided
  · rename_i nothing
    obtain ⟨rfl, rfl⟩ := Prod.mk.inj (Except.ok.inj decided)
    exact .inl ⟨nothing, rest⟩
  · rename_i operator position found
    split at decided
    · cases decided
    · obtain ⟨rfl, rfl⟩ := Prod.mk.inj (Except.ok.inj decided)
      exact .inr ⟨operator, position, found, rest⟩

/-- A recorded line is stored as it is. -/
theorem Recorded.appends (recorded : Recorded world st.log st.history st.addHistory line)
    (whole : place = .buffer ∨ ∃ idx, place = .entry idx) (held : st.string place = some line)
    (returns : commandBody world again place st = .ok (ended, st')) : Appends st st' line [] := by
  rcases commandBody_cases held returns with ⟨none, rest⟩ | ⟨operator, position, found, rest⟩
  · obtain ⟨no_entry, unchanged, marked⟩ := recorded.simple none
    obtain ⟨⟨ret, middle⟩, ran, last⟩ := bind_eq_ok.mp rest
    have same : st.overwrite (tokenised line) place = st := by
      rw [unchanged]
      exact overwrite_self held
    obtain ⟨done, _⟩ := runSimple_done held (by rw [same]) no_entry ran
    rw [same, marked] at done
    exact done.prints.appends whole held last
  · have held' : (st.split line position).string place = some line := by
      rcases whole with rfl | ⟨idx, rfl⟩ <;> exact held
    have no_entry : reexecuted (st.split line position).history (words (line.take position)) =
      none := recorded.first operator position found
    have held₁ : (st.split line position).string .first = some (line.take position) := rfl
    have second := recorded.second operator position found
    have alone := recorded.alone operator position found
    -- What is said of the split state is said of the state before it.
    suffices appends : Appends (st.split line position) st' line [] from
      ⟨appends.history, appends.log, appends.buffer⟩
    have redirected : operator.Redirects →
        redirect world again place operator (st.split line position) = .ok (ended, st') →
        Appends (st.split line position) st' line [] := by
      intro redirects done
      suffices printed : ∃ printed, printed = [] ∧
          Appends (st.split line position) st' line printed by
        obtain ⟨_, rfl, appends⟩ := printed
        exact appends
      refine redirect_appends (· = []) whole held' rfl
        (recorded.opens operator position found redirects) ?_ done
      intro before middle ret aside ran
      have begun := aside_prints aside
      have unchanged : before.history = st.history := begun.history.trans (List.append_nil _)
      change reexecuted st.history _ = none at no_entry
      rw [← unchanged] at no_entry
      obtain ⟨prints, _⟩ := runPart_prints (.inl rfl) aside.same.first no_entry ran
      exact ⟨[], _, rfl, begun.trans prints⟩
    cases operator with
    | and =>
      obtain ⟨⟨ret, middle⟩, ran, last⟩ := bind_eq_ok.mp rest
      obtain ⟨_, codes, fails, _⟩ := runPart_prints (.inl rfl) held₁ no_entry ran
      have decided : ret.2 = 0 ↔ ¬ Fails world st.log (line.take position) := by
        rw [show Fails world st.log (line.take position) ↔ ret.2 = 1 from fails.symm]
        omega
      exact parts_append whole held' rfl rfl no_entry (fun run => second (decided.mp run))
        (fun idle => alone id fun run => idle (decided.mpr run)) ran last
    | or =>
      obtain ⟨⟨ret, middle⟩, ran, last⟩ := bind_eq_ok.mp rest
      obtain ⟨_, _, fails, _⟩ := runPart_prints (.inl rfl) held₁ no_entry ran
      exact parts_append whole held' rfl rfl no_entry (fun run => second (fails.mp run))
        (fun idle => alone id fun run => idle (fails.mpr run)) ran last
    | sequence =>
      obtain ⟨⟨ret, middle⟩, ran, last⟩ := bind_eq_ok.mp rest
      have both : (if True then runSimple world again .second middle >>= fun result =>
          finish place 0 result.2 else finish place 0 middle) = .ok (ended, st') := by
        rw [if_pos trivial]
        exact last
      exact parts_append whole held' held₁ rfl no_entry (fun _ => second trivial)
        (fun idle => absurd trivial idle) ran both
    | write => exact redirected trivial rest
    | append => exact redirected trivial rest
    | read => exact redirected trivial rest

end Parts

section Steps

variable {world : World} {fuel : Nat} {st st' : State} {place : Place} {command line : Line}
  {ret : Int × Int}

/-- A command that runs an entry again, which is recorded, prints and stores that entry. -/
theorem runSimple_again {idx : Nat} (outside : place = .buffer ∨ place = .first)
    (held : st.string place = some command)
    (found : reexecuted st.history (words command) = some idx)
    (recorded : AgainRecorded world st command)
    (returns : runSimple world (commandExec world fuel) place st = .ok (ret, st')) :
    ∃ entry, Prints (st.overwrite (tokenised command) place) st' [entry] false := by
  have nested : ∀ {value : Int} {last : State}, execBuildin world (commandExec world fuel)
      (tokenised command) (words command) (st.started command place) = .ok (value, last) →
      value ≠ 2 ∧ ∃ entry, Prints (st.overwrite (tokenised command) place) last [entry] false := by
    intro value last buildin
    have history : (st.started command place).history = st.history := by
      rcases outside with rfl | rfl <;> rfl
    rw [← history] at found
    rw [execBuildin_reexecuted found, reexecute] at buildin
    obtain ⟨entry, read, rest⟩ := bind_eq_ok.mp buildin
    obtain ⟨⟨given, middle⟩, ran, same⟩ := bind_eq_ok.mp rest
    obtain ⟨rfl, rfl⟩ := Prod.mk.inj (Except.ok.inj same)
    rw [history] at found
    have stored : (st.started command place).string (.entry idx) = some entry := get_eq_ok.mp read
    cases fuel with
    | zero => cases ran
    | succ fuel =>
      have here : st.history[idx]? = some entry := by
        rw [← history]
        exact stored
      have meets := recorded idx entry found here
      -- The entry runs with the two events, and otherwise in the state before.
      generalize origin : (st.started command place).note (.command entry) = before at ran
      have held' : before.string (.entry idx) = some entry := by rw [← origin]; exact stored
      have facts : before.history = st.history ∧ before.addHistory = st.addHistory ∧
          before.log = st.log ++ [.starts command, .command entry] ∧
          before.buffer = (st.overwrite (tokenised command) place).buffer := by
        rw [← origin]
        rcases outside with rfl | rfl <;>
          simp [State.started, State.note, State.overwrite]
      obtain ⟨same_history, mark, log, buffer⟩ := facts
      rw [← same_history, ← mark, ← log] at meets
      have appends := meets.appends (.inr ⟨idx, rfl⟩) held' ran
      refine ⟨(commandBody_second held' ran []).2.2, entry, ?_, appends.buffer.trans buffer, ?_, rfl⟩
      · show middle.history = (st.overwrite (tokenised command) place).history ++ [entry]
        rw [appends.history, List.append_nil, same_history]
        rcases outside with rfl | rfl <;> rfl
      · obtain ⟨events, log', plain⟩ := appends.log
        refine ⟨[.starts command, .command entry] ++ events, ?_, ?_⟩
        · show middle.log = (st.overwrite (tokenised command) place).log ++ _
          rw [log', log, List.append_assoc]
          rcases outside with rfl | rfl <;> rfl
        · rw [entries_append, plain]
          rfl
  rcases (@runSimple_eq_ok _ _ st st' command place ret.1 ret.2 held).mp returns with
    ⟨_, _, buildin⟩ | ⟨_, middle, buildin, _⟩
  · exact (nested buildin).2
  · exact absurd rfl (nested buildin).1

/-- A line that is not to be stored leaves at most the entry that it runs again. -/
theorem logged_of_exempt (exempt : Exempt line) (again : AgainRecorded world st line)
    (unmarked : reexecuted st.history (words line) = none →
      markAfter st.addHistory (words line) = false) {value : Int}
    (returns : commandExec world (fuel + 1) .buffer { st with buffer := line } = .ok (value, st')) :
    Logged st st' line := by
  have held : ({ st with buffer := line } : State).string .buffer = some line := rfl
  rcases commandBody_cases held returns with ⟨_, rest⟩ | ⟨_, _, found, _⟩
  · obtain ⟨⟨ret, middle⟩, ran, last⟩ := bind_eq_ok.mp rest
    -- Nothing or the entry that was run again has been stored, and there is no mark.
    have printed : ∃ printed, Prints { st with buffer := tokenised line } middle printed false := by
      cases found : reexecuted st.history (words line) with
      | none =>
        obtain ⟨done, _⟩ := runSimple_done held rfl found ran
        have prints := done.prints
        rw [show markAfter _ (words line) = false from unmarked found] at prints
        exact ⟨[], prints⟩
      | some idx =>
        obtain ⟨entry, prints⟩ := runSimple_again (.inl rfl) held found again ran
        exact ⟨[entry], prints⟩
    obtain ⟨printed, prints⟩ := printed
    obtain ⟨history, log, _⟩ :=
      finish_done (show middle.string .buffer = some middle.buffer from rfl) last
    rw [prints.mark] at history
    obtain ⟨events, log', found⟩ := prints.log
    refine ⟨events, [], log.trans log', ?_, fun _ => rfl, fun needed => absurd exempt needed⟩
    rw [found, List.append_nil]
    exact history.trans prints.history
  · rw [exempt.1] at found
    cases found

/-- A line with a redirection is stored, behind the entry that its command runs again. -/
theorem logged_of_redirected {operator : Operator} {position : Nat} {value : Int}
    (found : findOperator line = some (operator, position)) (redirects : operator.Redirects)
    (opens : Opens world st.log operator (line.drop (position + 2)))
    (again : AgainRecorded world st (line.take position))
    (returns : commandExec world (fuel + 1) .buffer { st with buffer := line } = .ok (value, st')) :
    Logged st st' line := by
  have held : ({ st with buffer := line } : State).string .buffer = some line := rfl
  have needed : ¬ Exempt line := fun exempt => by
    rw [exempt.1] at found
    cases found
  rcases commandBody_cases held returns with ⟨none, _⟩ | ⟨operator', position', found', rest⟩
  · rw [none] at found
    cases found
  · rw [found] at found'
    obtain ⟨rfl, rfl⟩ := Prod.mk.inj (Option.some.inj found')
    have redirection : redirect world (commandExec world fuel) .buffer operator
        (({ st with buffer := line } : State).split line position) = .ok (value, st') := by
      cases operator <;> first | exact redirects.elim | exact rest
    have held' : (({ st with buffer := line } : State).split line position).string .buffer =
        some line := rfl
    have printed := redirect_appends (fun _ => True) (.inl rfl) held' rfl opens
      (fun {before middle ret} aside ran => by
        have begun := aside_prints aside
        have unchanged : before.history = st.history :=
          begun.history.trans (List.append_nil _)
        cases entry : reexecuted st.history (words (line.take position)) with
        | none =>
          rw [← unchanged] at entry
          obtain ⟨prints, _⟩ := runPart_prints (.inl rfl) aside.same.first entry ran
          exact ⟨[], _, trivial, begun.trans prints⟩
        | some idx =>
          -- The command runs in a state with the same history, mark and events.
          have recorded : AgainRecorded world before (line.take position) := by
            intro idx' text entry' there
            rw [unchanged] at entry' there ⊢
            rw [aside.log, aside.mark]
            exact again idx' text entry' there
          rw [← unchanged] at entry
          obtain ⟨text, prints⟩ :=
            runSimple_again (.inr rfl) aside.same.first entry recorded ran
          exact ⟨[text], false, trivial, begun.trans
            ⟨prints.history, prints.buffer, prints.log, prints.mark⟩⟩) redirection
    obtain ⟨printed, _, appends⟩ := printed
    obtain ⟨events, log, same⟩ := appends.log
    refine ⟨events, [line], log, ?_, fun exempt => absurd exempt needed, fun _ => rfl⟩
    rw [same]
    exact appends.history

/-- Every line that meets its condition is logged. -/
theorem Meets.logged (meets : Meets world st line) (stepped : Step world st line st') :
    Logged st st' line := by
  obtain ⟨fuel, value, returns⟩ := stepped
  cases fuel with
  | zero => cases returns
  | succ fuel =>
    cases meets with
    | stored needed recorded =>
      have held : ({ st with buffer := line } : State).string .buffer = some line := rfl
      have appends := @Recorded.appends world _ { st with buffer := line } st' .buffer line value
        recorded (.inl rfl) held returns
      obtain ⟨events, log, plain⟩ := appends.log
      refine ⟨events, [line], log, ?_, fun exempt => absurd exempt needed, fun _ => rfl⟩
      rw [plain]
      exact appends.history
    | exempt exempt again unmarked => exact logged_of_exempt exempt again unmarked returns
    | redirected operator position found redirects opens again =>
      exact logged_of_redirected found redirects opens again returns

/--
In every run of lines that meet the condition, the history is a log of them: no entry ever changes, and
each line is appended as it was entered, if it is to be, behind the entries that it ran again.
-/
theorem history_is_log {origin final : State} {trace : List (Transition State Line)}
    (run : Run (Step world) origin trace final)
    (meets : ∀ taken ∈ trace, Meets world taken.before taken.action) :
    (∀ taken ∈ trace, Logged taken.before taken.after taken.action) ∧
      origin.history <+: final.history := by
  have logged : ∀ taken ∈ trace, Logged taken.before taken.after taken.action := by
    intro taken member
    exact (meets taken member).logged (run.split_at member).1
  refine ⟨logged, ?_⟩
  clear meets
  -- Each line that is logged makes the history longer, at its end.
  induction run with
  | start => exact List.prefix_rfl
  | @next trace before after line earlier stepped ih =>
    have past := ih fun taken member => logged taken (List.mem_append_left _ member)
    obtain ⟨events, stored, _, history, _⟩ := logged ⟨before, line, after⟩ (by simp)
    rw [List.append_assoc] at history
    exact past.trans ⟨_, history.symm⟩

end Steps

section Samples

def sampleLs : State :=
  { sampleState ['l', 's'] with
    history := [['l', 's']]
    addHistory := true
    log := [.starts ['l', 's'], .forks [['l', 's']] false] }

def sampleShortened : State :=
  { sampleState ['l', 's'] with
    history := [['l', 's']]
    addHistory := true
    log := [.starts ['l', 's', ' ', '-', 'l'], .forks [['l', 's'], ['-', 'l']] false] }

/-- `ls` is logged. -/
theorem history_is_log_ls : Logged (sampleState []) sampleLs ['l', 's'] := by
  have step : Step sampleWorld (sampleState []) ['l', 's'] sampleLs := ⟨1, 0, rfl⟩
  have none : findOperator ['l', 's'] = none := by decide
  refine (history_is_log (Run.start.next step) ?_).1 ⟨sampleState [], ['l', 's'], sampleLs⟩ (by simp)
  simp only [List.nil_append, List.mem_singleton, forall_eq]
  apply Meets.stored
  · rintro ⟨_, name, arguments, same, special⟩
    obtain ⟨rfl, _⟩ := List.cons.inj (show [['l', 's']] = name :: arguments from same)
    simp at special
  · exact ⟨fun _ => ⟨rfl, rfl, rfl⟩, fun _ _ found => absurd (none.symm.trans found) (by simp),
      fun _ _ found => absurd (none.symm.trans found) (by simp),
      fun _ _ found => absurd (none.symm.trans found) (by simp),
      fun _ _ found => absurd (none.symm.trans found) (by simp)⟩

/-- Of `ls -l` only the first word is stored. -/
theorem arguments_lost : ¬ ∀ (world : World) (origin : State)
    (trace : List (Transition State Line)) (final : State), Run (Step world) origin trace final →
    ∀ taken ∈ trace, Logged taken.before taken.after taken.action := by
  intro claim
  have step : Step sampleWorld (sampleState []) ['l', 's', ' ', '-', 'l'] sampleShortened :=
    ⟨1, 0, rfl⟩
  obtain ⟨events, stored, _, history, _, needed⟩ := claim _ _ _ _ (Run.start.next step)
    ⟨sampleState [], ['l', 's', ' ', '-', 'l'], sampleShortened⟩ (by simp)
  have ordinary : ¬ Exempt ['l', 's', ' ', '-', 'l'] := by
    rintro ⟨_, name, arguments, same, special⟩
    obtain ⟨rfl, _⟩ := List.cons.inj (show [['l', 's'], ['-', 'l']] = name :: arguments from same)
    simp at special
  rw [needed ordinary] at history
  -- The last entry would be the whole line.
  have last := congrArg List.getLast? history
  rw [List.getLast?_append_of_ne_nil _ (by simp)] at last
  exact absurd last (by decide)

end Samples

end SystemProgramming.Shell
