import SystemProgramming.Shell.Commands

/-! Two commands with an operator between them: whether the second one runs. -/

namespace SystemProgramming.Shell

open Foundations.Strings

section Lines

/-- The operators that combine two commands. -/
inductive Junction where
  | and
  | or
  | sequence
  deriving DecidableEq, Repr

def Junction.operator : Junction → Operator
  | and => .and
  | or => .or
  | sequence => .sequence

/-- A command without any operator. -/
def Simple (command : Line) : Prop := ∀ operator : Operator, ¬ operator.symbol <:+: command

/-- `A && B`, `A || B` or `A ; B`. -/
def Junction.line (junction : Junction) (first second : Line) : Line :=
  first ++ ' ' :: (junction.operator.symbol ++ ' ' :: second)

/-- What is left of the second command; a single character takes the space behind it with it. -/
def Junction.rest (second : Line) : Junction → Line
  | and | or => ' ' :: second
  | sequence => second

variable {junction : Junction} {first second : Line} {operator : Operator}

theorem symbol_nonempty (operator : Operator) : operator.symbol ≠ [] := by
  cases operator <;> simp [Operator.symbol]

theorem space_not_mem_symbol (operator : Operator) : ' ' ∉ operator.symbol := by
  cases operator <;> simp [Operator.symbol]

/-- An operator does not occur in the line if it is not part of the one that stands there. -/
theorem not_infix_line (simple : Simple first) (simple' : Simple second)
    (absent : ¬ operator.symbol <:+: junction.operator.symbol) :
    strstr (junction.line first second) operator.symbol = none := by
  have apart := space_not_mem_symbol operator
  have nonempty := symbol_nonempty operator
  rw [strstr_eq_none_iff, Junction.line, infix_around_iff apart nonempty,
    infix_around_iff apart nonempty]
  simp only [not_or]
  exact ⟨simple operator, absent, simple' operator⟩

theorem strstr_line (simple : Simple first) :
    strstr (junction.line first second) junction.operator.symbol = some (first.length + 1) := by
  have here : strstr (junction.operator.symbol ++ ' ' :: second) junction.operator.symbol =
      some 0 := by
    cases junction <;> simp [Junction.operator, Operator.symbol, strstr]
  rw [Junction.line, strstr_behind (space_not_mem_symbol _) (symbol_nonempty _) (simple _), here]
  simp

/-- The operator between two simple commands is the one that is found. -/
theorem findOperator_line (simple : Simple first) (simple' : Simple second) :
    findOperator (junction.line first second) =
      some (junction.operator, first.length + 1) := by
  have here := @strstr_line junction first second simple
  have absent : ∀ operator : Operator, ¬ operator.symbol <:+: junction.operator.symbol →
      strstr (junction.line first second) operator.symbol = none :=
    fun operator => not_infix_line simple simple'
  -- The operators that would be preferred are not in the line.
  cases junction with
  | and =>
    change strstr _ Operator.and.symbol = _ at here
    rw [findOperator, here]
    rfl
  | or =>
    change strstr _ Operator.or.symbol = _ at here
    rw [findOperator, absent .and (by decide), here]
    rfl
  | sequence =>
    change strstr _ Operator.sequence.symbol = _ at here
    rw [findOperator, absent .and (by decide), absent .or (by decide), here]
    rfl

/-- The state behind `symbolic_dicide`. -/
def Junction.split (junction : Junction) (first second : Line) (st : State) : State :=
  { st with
    firstCommand := some (first ++ [' ']), secondCommand := some (junction.rest second) }

theorem symbolicDicide_line (simple : Simple first) (simple' : Simple second) (st : State) :
    symbolicDicide (junction.line first second) st =
      .ok (some junction.operator, junction.split first second st) := by
  have front : (junction.line first second).take (first.length + 1) = first ++ [' '] := by
    simp [Junction.line, List.take_append]
  have back : (junction.line first second).drop (first.length + 1 + 2) = junction.rest second := by
    rw [Nat.add_assoc, Junction.line, List.drop_length_add_append]
    cases junction <;> rfl
  have long : ¬ (junction.line first second).length < first.length + 1 + 2 := by
    rw [Junction.line, List.length_append]
    cases junction <;> simp only [Junction.operator, Operator.symbol, List.length_cons,
      List.length_append, List.length_nil] <;> omega
  rw [symbolicDicide, findOperator_line simple simple']
  simp only [if_neg long, front, back]
  rfl

end Lines

section Meaning

/-- Whether the second command runs, by the success of the first one. -/
def Junction.goesOn (success : Bool) : Junction → Bool
  | and => success
  | or => !success
  | sequence => true

/-- A built-in command succeeds with the value 0, an external one with the exit status 0. -/
def succeeds (world : World) (st : State) (command : Line) (retBuildin : Int) : Bool :=
  if retBuildin = 2 then
    endingOf world (st.note (.starts command)).log (words command) = .exited 0
  else retBuildin = 0

/-- The first command runs, and then the second one if it is to. -/
def shortCircuit (world : World) (again : Exec) (junction : Junction) (first second : Line)
    (st : State) : Except Stop ((Int × Int) × State) := do
  let st := junction.split first second st
  let (ret, after) ← runSimple world again .first st
  if junction.goesOn (succeeds world st (first ++ [' ']) ret.1) then
    runSimple world again .second { after with secondCommand := some (junction.rest second) }
  else .ok (ret, after)

/-- The events, and how it ended: by a return, by an exit with some status, or by a crash. -/
def observed {Value : Type} : Except Stop (Value × State) → List Event × Option (Option Nat)
  | .ok (_, st) => (st.log, none)
  | .error (.exits status st) => (st.log, some (some status))
  | .error (.crashes st) => (st.log, some none)

/-- The line is a redirection whose file does not open, and this is what it leaves of its name. -/
def Unopened (world : World) (log : List Event) (line left : Line) : Prop :=
  ∃ operator place, findOperator line = some (operator, place) ∧ operator.Redirects ∧
    ¬ Opens world log operator (line.drop (place + 2)) ∧
    left = tokenised (line.drop (place + 2))

/--
The first command is an external one that no signal kills, and that exits with 0 if it is not waited
for, or a built-in one that returns 0.
-/
def Told (world : World) (st : State) (command : Line) (retBuildin : Int) : Prop :=
  (External (words command) →
    (checkBackground (words command)).1 = false ∧
      endingOf world (st.note (.starts command)).log (words command) ≠ .signaled ∨
    endingOf world (st.note (.starts command)).log (words command) = .exited 0) ∧
  (¬ External (words command) → retBuildin = 0)

/--
The first command runs no entry of the history again, or one that leaves just what is to be the
second command.
-/
def Kept (world : World) (st : State) (command second : Line) : Prop :=
  ∀ idx entry, reexecuted st.history (words command) = some idx → st.history[idx]? = some entry →
    Unopened world (st.log ++ [.starts command, .command entry]) entry second

/-- If the first command returns, its result is told rightly, and the second one is still there. -/
def Junction.Meets (world : World) (again : Exec) (first second : Line) (st : State)
    (junction : Junction) : Prop :=
  ∀ ret after, runSimple world again .first (junction.split first second st) = .ok (ret, after) →
    (junction ≠ .sequence →
      Told world (junction.split first second st) (first ++ [' ']) ret.1) ∧
    (junction ≠ .or →
      Kept world (junction.split first second st) (first ++ [' ']) (junction.rest second))

end Meaning

section Leftovers

variable {world : World} {again : Exec} {st st' : State} {place : Place} {line left : Line}
  {value : Int}

theorem finish_eq_ok {ended : Int} (returns : finish place value st = .ok (ended, st')) :
    ended = value ∧ st'.secondCommand = none := by
  rw [finish] at returns
  obtain ⟨line, _, same⟩ := bind_eq_ok.mp returns
  obtain ⟨rfl, rfl⟩ := Prod.mk.inj (Except.ok.inj same)
  exact ⟨rfl, rfl⟩

/-- The value 2 of `exec_buildin` is never returned, as something is forked then. -/
theorem returned_ne_two {ret : Int × Int} (some_string : st.string place = some line)
    (returns : runSimple world again place st = .ok (ret, st')) : returned ret ≠ 2 := by
  rw [returned]
  rcases (runSimple_eq_ok some_string).mp returns with ⟨known, _, _⟩ | ⟨two, middle, _, forked⟩
  · rw [if_neg known]
    exact known
  · rw [if_pos two]
    rcases (makeFork_done forked).2 with ⟨zero, _⟩ | ⟨_, status, _, code⟩
    · rw [zero]
      decide
    · rw [code]
      split <;> decide

theorem held_of_runSimple {ret : Int × Int}
    (returns : runSimple world again place st = .ok (ret, st')) :
    ∃ line, st.string place = some line := by
  obtain ⟨line, read, _⟩ := bind_eq_ok.mp returns
  exact ⟨line, get_eq_ok.mp read⟩

/-- What reaches the end with a value returns that value. -/
theorem finish_reached {given : Int} {middle : State} (other : given ≠ 2)
    (done : finish place given middle = .ok (value, st')) :
    value ≠ 2 ∧ ∃ middle, finish place value middle = .ok (value, st') := by
  obtain rfl := (finish_eq_ok done).1
  exact ⟨other, middle, done⟩

/-- A redirection reaches the end exactly if its file opens, and leaves its name otherwise. -/
theorem redirect_cases {operator : Operator} {second : Line} (held : st.secondCommand = some second)
    (returns : redirect world again place operator st = .ok (value, st')) :
    (value ≠ 2 ∧ (∃ middle, finish place value middle = .ok (value, st')) ∧
      Opens world st.log operator second) ∨
    (value = 1 ∧ ¬ Opens world st.log operator second ∧
      st'.secondCommand = some (tokenised second)) := by
  by_cases opens : Opens world st.log operator second
  · obtain ⟨before, restored, _, _, same⟩ :=
      @redirect_opens world again st second operator place held opens
    rw [same] at returns
    obtain ⟨result, _, rest⟩ := bind_eq_ok.mp returns
    obtain ⟨other, reached⟩ := finish_reached (by decide) rest
    exact .inl ⟨other, reached, opens⟩
  · obtain ⟨after, same, aside⟩ :=
      @redirect_closed world again st second operator place held opens
    rw [same] at returns
    obtain ⟨rfl, rfl⟩ := Prod.mk.inj (Except.ok.inj returns)
    exact .inr ⟨rfl, opens, aside.same.second⟩

/-- A branch of `command_exec` that returns has reached its end, if its file has not failed to open. -/
theorem commandFlag_cases {flag : Option Operator} {second : Line}
    (returns : commandFlag world again place flag st = .ok (value, st'))
    (held : ∀ operator, flag = some operator → st.secondCommand = some second) :
    (value ≠ 2 ∧ (∃ middle, finish place value middle = .ok (value, st')) ∧
      ∀ operator, flag = some operator → operator.Redirects →
        Opens world st.log operator second) ∨
    (value = 1 ∧ (∃ operator, flag = some operator ∧ operator.Redirects ∧
      ¬ Opens world st.log operator second) ∧ st'.secondCommand = some (tokenised second)) := by
  have redirected : ∀ operator, operator.Redirects → flag = some operator →
      redirect world again place operator st = .ok (value, st') →
      (value ≠ 2 ∧ (∃ middle, finish place value middle = .ok (value, st')) ∧
        ∀ operator, flag = some operator → operator.Redirects →
          Opens world st.log operator second) ∨
      (value = 1 ∧ (∃ operator, flag = some operator ∧ operator.Redirects ∧
        ¬ Opens world st.log operator second) ∧ st'.secondCommand = some (tokenised second)) := by
    rintro operator redirects rfl done
    rcases redirect_cases (held operator rfl) done with ⟨other, reached, opens⟩ | ⟨one, closed, left⟩
    · refine .inl ⟨other, reached, fun _ same _ => ?_⟩
      obtain rfl := Option.some.inj same
      exact opens
    · exact .inr ⟨one, ⟨operator, rfl, redirects, closed⟩, left⟩
  -- The other branches are simple commands, and always reach the end.
  cases flag with
  | none =>
    obtain ⟨result, done, rest⟩ := bind_eq_ok.mp returns
    obtain ⟨line, some_string⟩ := held_of_runSimple done
    obtain ⟨other, reached⟩ := finish_reached (returned_ne_two some_string done) rest
    exact .inl ⟨other, reached, by simp⟩
  | some operator =>
    cases operator with
    | and | or =>
      left
      obtain ⟨result, done, rest⟩ := bind_eq_ok.mp returns
      obtain ⟨line, some_string⟩ := held_of_runSimple done
      have other := returned_ne_two some_string done
      suffices reached : ∃ middle, finish place (returned result.1) middle = .ok (value, st') by
        obtain ⟨middle, reached⟩ := reached
        obtain ⟨other, reached⟩ := finish_reached other reached
        exact ⟨other, reached, by simp [Operator.Redirects]⟩
      dsimp only at rest
      split at rest
      · obtain ⟨_, _, last⟩ := bind_eq_ok.mp rest
        exact ⟨_, last⟩
      · exact ⟨_, rest⟩
    | sequence =>
      left
      obtain ⟨result, _, rest⟩ := bind_eq_ok.mp returns
      obtain ⟨_, _, last⟩ := bind_eq_ok.mp rest
      obtain ⟨other, reached⟩ := finish_reached (by decide) last
      exact ⟨other, reached, by simp [Operator.Redirects]⟩
    | write => exact redirected .write trivial rfl returns
    | append => exact redirected .append trivial rfl returns
    | read => exact redirected .read trivial rfl returns

/-- A whole line that returns leaves something only if it is a redirection that fails. -/
theorem commandBody_second (held : st.string place = some line)
    (returns : commandBody world again place st = .ok (value, st')) (left : Line) :
    (st'.secondCommand = some left ↔ Unopened world st.log line left) ∧
      (st'.secondCommand ≠ none → value = 1) ∧ value ≠ 2 := by
  rw [commandBody, get_eq_ok.mpr held] at returns
  change (symbolicDicide line st >>= _) = _ at returns
  obtain ⟨⟨flag, middle⟩, decided, rest⟩ := bind_eq_ok.mp returns
  -- The flag and the second command are those of the line.
  have found : flag = none ∧ findOperator line = none ∨ ∃ operator position,
      flag = some operator ∧ findOperator line = some (operator, position) ∧
        middle.secondCommand = some (line.drop (position + 2)) ∧ middle.log = st.log := by
    rw [symbolicDicide] at decided
    split at decided
    · rename_i none
      obtain ⟨rfl, rfl⟩ := Prod.mk.inj (Except.ok.inj decided)
      exact .inl ⟨rfl, none⟩
    · rename_i operator position found
      split at decided
      · cases decided
      · obtain ⟨rfl, rfl⟩ := Prod.mk.inj (Except.ok.inj decided)
        exact .inr ⟨operator, position, rfl, found, rfl, rfl⟩
  rcases found with ⟨rfl, none⟩ | ⟨operator, position, rfl, found, second, log⟩
  · rcases @commandFlag_cases _ _ _ _ _ _ _ [] rest (by simp) with ⟨other, ⟨_, reached⟩, _⟩ | failed
    · have empty := (finish_eq_ok reached).2
      rw [empty]
      refine ⟨iff_of_false (by simp) ?_, fun some_left => absurd rfl some_left, other⟩
      rintro ⟨_, _, found, _⟩
      rw [none] at found
      cases found
    · obtain ⟨_, ⟨_, same, _⟩, _⟩ := failed
      cases same
  · have unopened : Unopened world st.log line left ↔ operator.Redirects ∧
        ¬ Opens world middle.log operator (line.drop (position + 2)) ∧
        left = tokenised (line.drop (position + 2)) := by
      constructor
      · rintro ⟨operator', position', found', facts⟩
        rw [found] at found'
        obtain ⟨rfl, rfl⟩ := Prod.mk.inj (Option.some.inj found')
        rw [log]
        exact facts
      · rintro ⟨redirects, closed, same⟩
        rw [log] at closed
        exact ⟨operator, position, found, redirects, closed, same⟩
    rw [unopened]
    rcases commandFlag_cases rest (fun _ _ => second) with
      ⟨other, ⟨_, reached⟩, opens⟩ | ⟨rfl, ⟨_, same, redirects, closed⟩, stays⟩
    · have empty := (finish_eq_ok reached).2
      rw [empty]
      refine ⟨iff_of_false (by simp) ?_, fun some_left => absurd rfl some_left, other⟩
      rintro ⟨redirects, closed, _⟩
      exact closed (opens operator rfl redirects)
    · obtain rfl := Option.some.inj same
      rw [stays]
      refine ⟨⟨fun same => ⟨redirects, closed, (Option.some.inj same).symm⟩, ?_⟩, fun _ => rfl,
        by decide⟩
      rintro ⟨_, _, rfl⟩
      rfl

end Leftovers

section Decision

variable {world : World} {fuel : Nat} {junction : Junction} {first second : Line}
  {st after : State} {ret : Int × Int} {command : Line} {place : Place}

/-- A command that runs no entry again leaves the second command, and tells what it is. -/
theorem plain_after (held : st.firstCommand = some command)
    (none : reexecuted st.history (words command) = none)
    (returns : runSimple world (commandExec world fuel) .first st = .ok (ret, after)) :
    after.secondCommand = st.secondCommand ∧ (ret.1 = 2 ↔ External (words command)) := by
  change reexecuted (st.started command .first).history (words command) = Option.none at none
  rcases (@runSimple_eq_ok _ _ st after command .first ret.1 ret.2 held).mp returns with
    ⟨known, _, buildin⟩ | ⟨two, middle, buildin, forked⟩
  · rcases execBuildin_done none buildin with ⟨same, _⟩ | ⟨_, internal, done⟩
    · exact absurd same known
    · exact ⟨done.same.second, iff_of_false known internal⟩
  · rcases execBuildin_done none buildin with ⟨_, external, rfl⟩ | ⟨other, _⟩
    · exact ⟨(makeFork_done forked).1.same.second, iff_of_true two external⟩
    · exact absurd rfl other

/-- A command that runs an entry again leaves what the run of the entry leaves. -/
theorem reexecuted_after {idx : Nat} (held : st.firstCommand = some command)
    (found : reexecuted st.history (words command) = some idx)
    (returns : runSimple world (commandExec world fuel) .first st = .ok (ret, after)) :
    ∃ entry, st.history[idx]? = some entry ∧ ret.1 ≠ 2 ∧ ret.2 = 0 ∧
      (after.secondCommand ≠ none → ret.1 = 1) ∧ ∀ left, after.secondCommand = some left ↔
        Unopened world (st.log ++ [.starts command, .command entry]) entry left := by
  -- The entry is found in the history as it was, and runs right behind the two events.
  have nested : ∀ {value : Int} {last : State}, execBuildin world (commandExec world fuel)
      (tokenised command) (words command) (st.started command .first) = .ok (value, last) →
      ∃ entry, st.history[idx]? = some entry ∧ value ≠ 2 ∧
        (last.secondCommand ≠ none → value = 1) ∧ ∀ left, last.secondCommand = some left ↔
          Unopened world (st.log ++ [.starts command, .command entry]) entry left := by
    intro value last buildin
    have found' : reexecuted (st.started command .first).history (words command) = some idx := found
    rw [execBuildin_reexecuted found', reexecute] at buildin
    obtain ⟨entry, read, rest⟩ := bind_eq_ok.mp buildin
    obtain ⟨⟨given, middle⟩, ran, same⟩ := bind_eq_ok.mp rest
    obtain ⟨rfl, rfl⟩ := Prod.mk.inj (Except.ok.inj same)
    have stored : st.history[idx]? = some entry := get_eq_ok.mp read
    cases fuel with
    | zero => cases ran
    | succ fuel =>
      have stored' : ((st.started command .first).note (.command entry)).string (.entry idx) =
          some entry := stored
      have leaves := commandBody_second stored' ran
      refine ⟨entry, stored, (leaves []).2.2, (leaves []).2.1, fun left => ?_⟩
      have log : ((st.started command .first).note (.command entry)).log =
          st.log ++ [.starts command, .command entry] := by
        simp [State.started, State.note, State.overwrite]
      rw [← log]
      exact (leaves left).1
  rcases (@runSimple_eq_ok _ _ st after command .first ret.1 ret.2 held).mp returns with
    ⟨known, zero, buildin⟩ | ⟨_, middle, buildin, _⟩
  · obtain ⟨entry, stored, other, told, exact⟩ := nested buildin
    exact ⟨entry, stored, other, zero, told, exact⟩
  · obtain ⟨_, _, other, _⟩ := nested buildin
    exact absurd rfl other

/-- Whether `command_exec` runs the second command. -/
def Junction.runsSecond (retFork : Int) : Junction → Prop
  | and => retFork = 0
  | or => retFork = 1
  | sequence => True

instance (junction : Junction) (retFork : Int) : Decidable (junction.runsSecond retFork) :=
  match junction with
  | .and => inferInstanceAs (Decidable (retFork = 0))
  | .or => inferInstanceAs (Decidable (retFork = 1))
  | .sequence => inferInstanceAs (Decidable True)

/-- What `command_exec` returns for two commands. -/
def Junction.value (ret : Int × Int) : Junction → Int
  | and | or => returned ret
  | sequence => 0

/-- The branches for two commands are one and the same, up to the decision. -/
theorem commandFlag_junction (world : World) (again : Exec) :
    commandFlag world again place (some junction.operator) st =
      (runSimple world again .first st >>= fun result =>
        if junction.runsSecond result.1.2 then
          runSimple world again .second result.2 >>= fun last =>
            finish place (junction.value result.1) last.2
        else finish place (junction.value result.1) result.2) := by
  cases junction
  · rfl
  · rfl
  · refine congrArg (Bind.bind (runSimple world again .first st)) (funext fun result => ?_)
    exact (if_pos trivial).symm

/-- The line can be stored as long as the history only grows. -/
theorem observed_finish {st' : State} {line : Line} {value : Int}
    (whole : place = .buffer ∨ ∃ idx, place = .entry idx) (held : st.string place = some line)
    (grows : Grows st st') : observed (finish place value st') = (st'.log, none) := by
  have still : ∃ line', st'.string place = some line' := by
    rcases whole with rfl | ⟨idx, rfl⟩
    · exact ⟨_, rfl⟩
    · obtain ⟨inside, _⟩ := List.getElem?_eq_some_iff.mp (show st.history[idx]? = some line from held)
      have inside' := Nat.lt_of_lt_of_le inside grows.history
      exact ⟨st'.history[idx], List.getElem?_eq_getElem inside'⟩
  obtain ⟨line', held'⟩ := still
  rw [finish, get_eq_ok.mpr held']
  rfl

theorem observed_log {Value : Type} (part : Except Stop (Value × State)) :
    (observed part).1 = (leaves part).log := by
  rcases part with stop | ⟨value, st⟩
  · cases stop <;> rfl
  · rfl

/-- A log that goes on with a command is another one. -/
theorem ne_of_starts {log log' : List Event} (starts : log ++ [.starts command] <+: log') :
    log' ≠ log := by
  rintro rfl
  have longer := starts.length_le
  simp only [List.length_append, List.length_singleton] at longer
  omega

/-- Without a second command, the line crashes where it is to run. -/
theorem observed_second_missing {value : Int} (empty : after.secondCommand = none) :
    observed (runSimple world (commandExec world fuel) .second after >>= fun last =>
      finish place value last.2) = (after.log, some none) := by
  rw [runSimple, State.get, show after.string .second = none from empty]
  rfl

/-- A second command that is there is noted, and whatever else is behind it. -/
theorem observed_second_starts {value : Int} (there : after.secondCommand = some second) :
    after.log ++ [.starts second] <+: (observed (runSimple world (commandExec world fuel) .second
      after >>= fun last => finish place value last.2)).1 := by
  rw [observed_log]
  have begins := @runSimple_grows world _ after second .second (commandExec_grows world fuel) there
  exact begins.log.trans (grows_bind (Grows.refl _) fun _ _ => finish_grows).log

/--
Behind the first command, the line does what it is for exactly if it decides rightly, and the second
command is there when it is to run.
-/
theorem observed_rest_iff {line : Line} {value : Int} {runs goes : Prop} [Decidable runs]
    [Decidable goes] (whole : place = .buffer ∨ ∃ idx, place = .entry idx)
    (held : st.string place = some line) (grows : Grows st after) :
    observed (if runs then runSimple world (commandExec world fuel) .second after >>= fun last =>
        finish place value last.2 else finish place value after) =
      observed (if goes then runSimple world (commandExec world fuel) .second
        { after with secondCommand := some second } else .ok (ret, after)) ↔
    (runs ↔ goes) ∧ (goes → after.secondCommand = some second) := by
  have again_grows := commandExec_grows world fuel
  -- What is to run is noted, so that it cannot be confused with nothing.
  have wanted : after.log ++ [.starts second] <+: (observed (runSimple world
      (commandExec world fuel) .second { after with secondCommand := some second })).1 := by
    rw [observed_log]
    exact (@runSimple_grows world _ { after with secondCommand := some second } second .second
      again_grows rfl).log
  by_cases run : runs <;> by_cases go : goes
  · rw [if_pos run, if_pos go]
    simp only [run, go, true_and, forall_const]
    constructor
    · intro same
      cases there : after.secondCommand with
      | none =>
        rw [observed_second_missing there] at same
        exact absurd (congrArg Prod.fst same).symm (ne_of_starts wanted)
      | some other =>
        -- Both logs go on with the command that was started.
        have both := @observed_second_starts world fuel other after place value there
        rw [same] at both
        have equal := List.prefix_of_prefix_length_le both wanted (by simp)
        have equal' := equal.eq_of_length (by simp)
        obtain ⟨_, same'⟩ := List.append_inj' equal' rfl
        injection List.singleton_inj.mp same' with command
        rw [command]
    · intro there
      have unchanged : { after with secondCommand := some second } = after := by
        rw [← there]
      rw [unchanged]
      cases ran : runSimple world (commandExec world fuel) .second after with
      | error stop => cases stop <;> rfl
      | ok result =>
        have more := @runSimple_grows_any world _ after .second again_grows
        rw [ran] at more
        exact observed_finish whole held (grows.trans more)
  · rw [if_pos run, if_neg go]
    refine iff_of_false (fun same => ?_) (fun both => go (both.1.mp run))
    cases there : after.secondCommand with
    | none =>
      rw [observed_second_missing there] at same
      cases (congrArg Prod.snd same)
    | some other => exact ne_of_starts (observed_second_starts there) (congrArg Prod.fst same)
  · rw [if_neg run, if_pos go, observed_finish whole held grows]
    refine iff_of_false (fun same => ?_) (fun both => run (both.1.mpr go))
    exact ne_of_starts wanted (congrArg Prod.fst same).symm
  · rw [if_neg run, if_neg go, observed_finish whole held grows]
    exact iff_of_true rfl ⟨iff_of_false run go, fun other => absurd other go⟩

theorem not_external_of_reexecuted {history argv : List Line} {idx : Nat}
    (found : reexecuted history argv = some idx) : ¬ External argv := by
  cases argv with
  | nil => cases found
  | cons name arguments =>
    rintro ⟨_, digitless, textless, _⟩
    rw [reexecuted, if_neg digitless, if_neg textless] at found
    split at found <;> cases found

/-- What is known of the first command once it has returned. -/
theorem first_returned (held : st.firstCommand = some command) (stored : st.secondCommand = some second)
    (returns : runSimple world (commandExec world fuel) .first st = .ok (ret, after)) :
    (ret.2 = 0 ∨ ret.2 = 1) ∧ (ret.2 ≠ 0 → after.secondCommand = some second) ∧
      ((ret.2 = 0 ↔ succeeds world st command ret.1) ↔ Told world st command ret.1) ∧
      (Kept world st command second ↔ after.secondCommand = some second) := by
  cases found : reexecuted st.history (words command) with
  | some idx =>
    obtain ⟨entry, there, other, zero, told, exact⟩ := reexecuted_after held found returns
    have internal := not_external_of_reexecuted found
    refine ⟨.inl zero, fun other => absurd zero other, ?_, ?_⟩
    · simp [zero, succeeds, other, Told, internal]
    · rw [exact second]
      constructor
      · intro kept
        exact kept idx entry found there
      · rintro unopened idx' entry' found' there'
        obtain rfl := Option.some.inj (found.symm.trans found')
        obtain rfl := Option.some.inj (there.symm.trans there')
        exact unopened
  | none =>
    obtain ⟨same, external⟩ := plain_after held found returns
    have there : after.secondCommand = some second := same.trans stored
    have kept : Kept world st command second := by
      intro idx entry found'
      rw [found] at found'
      cases found'
    suffices fork : (ret.2 = 0 ∨ ret.2 = 1) ∧
        ((ret.2 = 0 ↔ succeeds world st command ret.1) ↔ Told world st command ret.1) from
      ⟨fork.1, fun _ => there, fork.2, iff_of_true kept there⟩
    rcases (@runSimple_eq_ok _ _ st after command .first ret.1 ret.2 held).mp returns with
      ⟨known, zero, _⟩ | ⟨two, middle, buildin, forked⟩
    · have internal : ¬ External (words command) := fun outside => known (external.mpr outside)
      exact ⟨.inl zero, by simp [zero, succeeds, known, Told, internal]⟩
    · have outside : External (words command) := external.mp two
      have found' : reexecuted (st.started command .first).history (words command) = none := found
      have unchanged : middle = st.started command .first := by
        rcases execBuildin_done found' buildin with ⟨_, _, rfl⟩ | ⟨other, _⟩
        · rfl
        · exact absurd rfl other
      have log : middle.log = (st.note (.starts command)).log := by rw [unchanged]; rfl
      have code := (makeFork_done forked).2
      rw [log] at code
      -- The cases are a child that is not waited for, a signal, and an exit status.
      rcases code with ⟨zero, background | killed⟩ | ⟨foreground, status, ended, exit⟩
      · exact ⟨.inl zero, by simp [zero, succeeds, two, Told, outside, background]⟩
      · exact ⟨.inl zero, by simp [zero, succeeds, two, Told, outside, killed]⟩
      · by_cases zero : status = 0
        · rw [if_pos zero] at exit
          exact ⟨.inl exit, by simp [exit, succeeds, two, Told, outside, foreground, ended, zero]⟩
        · rw [if_neg zero] at exit
          exact ⟨.inr exit, by simp [exit, succeeds, two, Told, outside, foreground, ended, zero]⟩

/-- The decision by the value of the fork is right exactly if that value tells the success. -/
theorem decides_iff {there : Prop} (junction : Junction) (code : Int) (success : Bool)
    (codes : code = 0 ∨ code = 1) (kept : code ≠ 0 → there) :
    (junction.runsSecond code ↔ junction.goesOn success = true) ∧
        (junction.goesOn success = true → there) ↔
      (junction ≠ .sequence → (code = 0 ↔ success = true)) ∧ (junction ≠ .or → there) := by
  cases junction with
  | and =>
    -- A second command that does not run is still there, as something was forked.
    simp only [Junction.runsSecond, Junction.goesOn]
    rcases codes with rfl | rfl <;> cases success <;> simp_all
  | or =>
    simp only [Junction.runsSecond, Junction.goesOn]
    rcases codes with rfl | rfl <;> cases success <;> simp_all
  | sequence => simp [Junction.runsSecond, Junction.goesOn]

/--
`command_exec` runs the first of two simple commands, and the second one exactly if it is to, exactly
in the cases that are met: where the result of the first command is told rightly, and no entry of the
history that it runs again has freed the second one.
-/
theorem short_circuit_iff {first second : Line} (simple : Simple first) (simple' : Simple second)
    (whole : place = .buffer ∨ ∃ idx, place = .entry idx)
    (held : st.string place = some (junction.line first second)) :
    observed (commandExec world (fuel + 1) place st) =
        observed (shortCircuit world (commandExec world fuel) junction first second st) ↔
      junction.Meets world (commandExec world fuel) first second st := by
  have split : commandExec world (fuel + 1) place st =
      commandFlag world (commandExec world fuel) place (some junction.operator)
        (junction.split first second st) := by
    rw [commandExec, commandBody, get_eq_ok.mpr held]
    show (symbolicDicide _ st >>= _) = _
    rw [symbolicDicide_line simple simple']
    rfl
  have held' : (junction.split first second st).string place =
      some (junction.line first second) := by
    rcases whole with rfl | ⟨idx, rfl⟩ <;> exact held
  rw [split, commandFlag_junction, shortCircuit, Junction.Meets]
  generalize start : junction.split first second st = origin at held'
  have command : origin.firstCommand = some (first ++ [' ']) := by rw [← start]; rfl
  have rest : origin.secondCommand = some (junction.rest second) := by rw [← start]; rfl
  cases ran : runSimple world (commandExec world fuel) .first origin with
  | error stop =>
    -- Without a return, there is nothing to decide.
    refine iff_of_true ?_ (fun ret after returns => absurd returns (by simp))
    cases stop <;> rfl
  | ok result =>
    obtain ⟨ret, after⟩ := result
    have grows := @runSimple_grows_any world _ origin .first (commandExec_grows world fuel)
    rw [ran] at grows
    obtain ⟨codes, kept_if, told, kept⟩ := first_returned command rest ran
    refine (observed_rest_iff whole held' grows).trans ?_
    have only : ∀ (Condition : (Int × Int) → State → Prop),
        (∀ ret' after', (Except.ok (ret, after) : Except Stop ((Int × Int) × State)) =
          .ok (ret', after') → Condition ret' after') ↔ Condition ret after := by
      intro Condition
      constructor
      · intro all
        exact all ret after rfl
      · rintro one ret' after' same
        obtain ⟨rfl, rfl⟩ := Prod.mk.inj (Except.ok.inj same)
        exact one
    rw [only, ← told, kept]
    exact decides_iff junction ret.2 _ codes kept_if

end Decision

section Samples

/-- A world in which only the directory `/` can be entered, and every command exits with 0. -/
def sampleWorld : World where
  chdir := fun _ directory => directory = ['/']
  opens := fun _ _ _ => false
  ending := fun _ _ _ => .exited 0

def sampleState (line : Line) : State where
  history := []
  addHistory := false
  firstCommand := none
  secondCommand := none
  commandOutput := none
  descriptors := [some (.inherited 0), some (.inherited 1), some (.inherited 2)]
  buffer := line
  log := []

/-- `cd / && ls` is decided rightly. -/
theorem short_circuit_iff_cd : Junction.Meets sampleWorld (commandExec sampleWorld 1)
    ['c', 'd', ' ', '/'] ['l', 's']
    (sampleState (Junction.and.line ['c', 'd', ' ', '/'] ['l', 's'])) .and := by
  have simple : Simple ['c', 'd', ' ', '/'] := by
    intro operator
    cases operator <;> decide
  have simple' : Simple ['l', 's'] := by
    intro operator
    cases operator <;> decide
  exact (@short_circuit_iff _ _ .and _ .buffer _ _ simple simple' (.inl rfl) rfl).mp (by decide)

/-- `cd x && ls` runs `ls` although there is no directory `x`. -/
theorem second_runs_after_failure : ¬ ∀ (world : World) (fuel : Nat) (junction : Junction)
    (first second : Line) (st : State), Simple first → Simple second →
    st.buffer = junction.line first second →
    observed (commandExec world (fuel + 1) .buffer st) =
      observed (shortCircuit world (commandExec world fuel) junction first second st) := by
  intro claim
  have same := claim sampleWorld 1 .and ['c', 'd', ' ', 'x'] ['l', 's'] (sampleState _)
    (by intro operator; cases operator <;> decide) (by intro operator; cases operator <;> decide) rfl
  exact absurd same (by decide)

end Samples

end SystemProgramming.Shell
