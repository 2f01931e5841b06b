import SystemProgramming.Foundations.Strings

/-! A shell: command lines, their operators and words, and the history that can be run again. -/

namespace SystemProgramming.Shell

open Foundations.Strings

/-- A string without a zero byte. -/
abbrev Line := List Char

section Lines

/-- The operators of a command line; only the first one that is there counts, in this order. -/
inductive Operator where
  | and
  | or
  | sequence
  | write
  | append
  | read
  deriving DecidableEq, Repr

/-- How an operator is written. -/
def Operator.symbol : Operator → Line
  | and => ['&', '&']
  | or => ['|', '|']
  | sequence => [';']
  | write => ['>']
  | append => ['>', '>']
  | read => ['<']

/-- The operator that `symbolic_dicide` decides for, and where it stands. -/
def findOperator (line : Line) : Option (Operator × Nat) :=
  match strstr line Operator.and.symbol, strstr line Operator.or.symbol,
    strstr line Operator.sequence.symbol, strstr line Operator.append.symbol,
    strstr line Operator.write.symbol, strstr line Operator.read.symbol with
  | some place, _, _, _, _, _ => some (.and, place)
  | none, some place, _, _, _, _ => some (.or, place)
  | none, none, some place, _, _, _ => some (.sequence, place)
  | none, none, none, some place, _, _ => some (.append, place)
  | none, none, none, none, some place, _ => some (.write, place)
  | none, none, none, none, none, some place => some (.read, place)
  | none, none, none, none, none, none => none

/-- `strtok`: the next word and what is behind the space that ends it. -/
def strtok (line : Line) : Option (Line × Line) :=
  let start := line.dropWhile (· = ' ')
  if start = [] then none
  else some (start.takeWhile (· ≠ ' '), (start.dropWhile (· ≠ ' ')).drop 1)

/-- The loop of `read_args`; every turn takes at least one character away. -/
def readWords : Nat → Line → List Line
  | 0, _ => []
  | fuel + 1, line =>
    match strtok line with
    | none => []
    | some (token, rest) =>
      (if token.getLast? = some '\n' then token.dropLast else token) :: readWords fuel rest

/-- The words of a line. -/
def words (line : Line) : List Line := readWords line.length line

/--
What `strtok` leaves of a line in its buffer: the zero byte that ends the first word ends the
string, too.
-/
def tokenised (line : Line) : Line :=
  line.takeWhile (· = ' ') ++ (line.dropWhile (· = ' ')).takeWhile (· ≠ ' ')

/-- `isspace`. -/
def isSpace (character : Char) : Bool :=
  character = ' ' || (9 ≤ character.toNat && character.toNat ≤ 13)

/-- The value of some digits. -/
def decimal (digits : Line) : Nat :=
  digits.foldl (fun value digit => 10 * value + (digit.toNat - 48)) 0

/-- `atoi`: what `strtol` makes of the text, cut off at the bounds of a `long`, as an `int`. -/
def atoi (text : Line) : Int :=
  let signed := text.dropWhile isSpace
  let signs := signed.head? = some '-' ∨ signed.head? = some '+'
  let unsigned := if signs then signed.tail else signed
  let magnitude : Int := decimal (unsigned.takeWhile Char.isDigit)
  let value := if signed.head? = some '-' then -magnitude else magnitude
  (BitVec.ofInt 32 (max (-9223372036854775808) (min 9223372036854775807 value))).toInt

/-- The comparison in `handle_latest_similar_command`, which skips the spaces of the entry. -/
def startsWith : Line → Line → Bool
  | [], _ => true
  | character :: rest, line =>
    match line.dropWhile (· = ' ') with
    | [] => false
    | first :: line => character = first && startsWith rest line

/-- The latest of so many entries that starts with a text. -/
def latestSimilar (text : Line) (history : List Line) : Nat → Option Nat
  | 0 => none
  | idx + 1 =>
    if startsWith text (history.getD idx []) then some idx else latestSimilar text history idx

end Lines

section System

/-- What an open descriptor refers to. -/
inductive File where
  | inherited (descriptor : Nat)
  | opened (path : Line) (operator : Operator)
  deriving DecidableEq, Repr

/-- How a child ends, as `waitpid` sees it; or there is no child, or the wait for it fails. -/
inductive Ending where
  | forkFailed
  | waitFailed
  | exited (status : Nat)
  | signaled
  | neither
  deriving DecidableEq, Repr

/-- What the shell does that can be seen. -/
inductive Event where
  | starts (command : Line)
  | invalidCommand (command : Line)
  | noDirectory (directory : Line)
  | changesDirectory (directory : Line)
  | historyLine (index : Nat) (line : Line)
  | invalidIndex
  | command (line : Line)
  | noHistoryMatch
  | processes
  | forks (argv : List Line) (background : Bool)
  | forkFailed
  | waitFailed
  | redirectionFileError
  deriving DecidableEq, Repr

/-- What the operating system answers, which may depend on all that has happened so far. -/
structure World where
  chdir : List Event → Line → Bool
  opens : List Event → Line → Operator → Bool
  ending : List Event → List Line → Bool → Ending

/-- The variables of the shell, its descriptors, and the events so far. -/
structure State where
  history : List Line
  addHistory : Bool
  firstCommand : Option Line
  secondCommand : Option Line
  commandOutput : Option Nat
  descriptors : List (Option File)
  buffer : Line
  log : List Event
  deriving DecidableEq, Repr

/-- The shell ends, or it does something undefined; both in some state. -/
inductive Stop where
  | exits (status : Nat) (st : State)
  | crashes (st : State)
  deriving DecidableEq, Repr

/-- Where a string lies that is tokenised in place. -/
inductive Place where
  | buffer
  | entry (idx : Nat)
  | first
  | second
  deriving DecidableEq, Repr

def State.note (st : State) (event : Event) : State := { st with log := st.log ++ [event] }

/-- The string in a place. -/
def State.string (st : State) : Place → Option Line
  | .buffer => some st.buffer
  | .entry idx => st.history[idx]?
  | .first => st.firstCommand
  | .second => st.secondCommand

/-- The string in a place is overwritten. -/
def State.overwrite (st : State) (line : Line) : Place → State
  | .buffer => { st with buffer := line }
  | .entry idx => { st with history := st.history.set idx line }
  | .first => { st with firstCommand := some line }
  | .second => { st with secondCommand := some line }

/-- A string has to be there before it can be read. -/
def State.get (st : State) (place : Place) : Except Stop Line :=
  match st.string place with
  | some line => .ok line
  | none => .error (.crashes st)

/-- A new descriptor is the lowest one that is free. -/
def State.allocate (st : State) (file : Option File) : Nat × State :=
  let descriptor := st.descriptors.findIdx (· = none)
  (descriptor, { st with
    descriptors := if descriptor < st.descriptors.length then st.descriptors.set descriptor file
      else st.descriptors ++ [file] })

/-- `dup`. -/
def State.dup (st : State) (descriptor : Nat) : Nat × State :=
  st.allocate st.descriptors[descriptor]?.join

/-- `dup2`. -/
def State.dup2 (st : State) (source target : Nat) : State :=
  { st with descriptors := st.descriptors.set target st.descriptors[source]?.join }

/-- `close`. -/
def State.close (st : State) (descriptor : Nat) : State :=
  { st with descriptors := st.descriptors.set descriptor none }

/-- `command_output = fopen(...)`; without a name, it fails. -/
def State.openOutput (world : World) (operator : Operator) (name : Option Line) (st : State) :
    State :=
  match name with
  | some name =>
    if world.opens st.log name operator then
      let opened := st.allocate (some (.opened name operator))
      { opened.2 with commandOutput := some opened.1 }
    else { st with commandOutput := none }
  | none => { st with commandOutput := none }

/-- `command_output` is closed if it is there. -/
def State.closeOutput (st : State) : State :=
  match st.commandOutput with
  | some descriptor => { st.close descriptor with commandOutput := none }
  | none => st

end System

section Commands

/-- A run of `command_exec` on a line that lies in some place. -/
abbrev Exec := Place → State → Except Stop (Int × State)

variable (world : World) (again : Exec)

/-- `symbolic_dicide`; the size of the second command is not to underflow. -/
def symbolicDicide (line : Line) (st : State) : Except Stop (Option Operator × State) :=
  match findOperator line with
  | none => .ok (none, st)
  | some (operator, place) =>
    if line.length < place + 2 then .error (.crashes st)
    else .ok (some operator,
      { st with
        firstCommand := some (line.take place), secondCommand := some (line.drop (place + 2)) })

/-- `read_args`. -/
def readArgs (place : Place) (st : State) : Except Stop (List Line × State) := do
  let line ← st.get place
  .ok (words line, st.overwrite (tokenised line) place)

/-- `handle_cd_command`. -/
def handleCdCommand (arguments : List Line) (st : State) : Int × State :=
  match arguments with
  | [] => (1, st.note (.noDirectory []))
  | directory :: _ =>
    if world.chdir st.log directory then (0, st.note (.changesDirectory directory))
    else (1, st.note (.noDirectory directory))

/-- `handle_history_command`. -/
def handleHistoryCommand (st : State) : Int × State :=
  (0, { st with
    log := st.log ++ st.history.zipIdx.map fun entry => .historyLine entry.2 entry.1 })

/-- An entry of the history is printed and run again, where it lies. -/
def reexecute (idx : Nat) (st : State) : Except Stop (Int × State) := do
  let line ← st.get (.entry idx)
  let (ret, st) ← again (.entry idx) (st.note (.command line))
  .ok (ret, { st with addHistory := false })

/-- `handle_call_num_command`. -/
def handleCallNumCommand (name : Line) (st : State) : Except Stop (Int × State) :=
  if name.tail = [] then .ok (1, st.note .invalidIndex)
  else
    -- A negative number is a large `size_t`.
    let idx := atoi name.tail
    if idx < 0 ∨ st.history.length ≤ idx.toNat then
      .ok (1, { st.note .invalidIndex with addHistory := false })
    else reexecute again idx.toNat st

/-- `handle_latest_similar_command`; without history, there is no last entry. -/
def handleLatestSimilarCommand (name : Line) (st : State) : Except Stop (Int × State) :=
  if name.tail = [] then reexecute again (st.history.length - 1) st
  else
    match latestSimilar name.tail st.history st.history.length with
    | some idx => reexecute again idx st
    | none => .ok (1, { st.note .noHistoryMatch with addHistory := false })

/--
`exec_buildin`. Its branch for `cont`, `stop` and `kill` asks for all three names at once, and is
never taken.
-/
def execBuildin (command : Line) (argv : List Line) (st : State) : Except Stop (Int × State) :=
  match argv with
  | [] => .ok (1, st.note (.invalidCommand command))
  | name :: arguments =>
    if name = ['c', 'd'] then .ok (handleCdCommand world arguments { st with addHistory := true })
    else if name = ['!', 'h', 'i', 's', 't', 'o', 'r', 'y'] then
      .ok (handleHistoryCommand { st with addHistory := false })
    else if name.head? = some '#' then handleCallNumCommand again name st
    else if name.head? = some '!' then handleLatestSimilarCommand again name st
    else if name = ['e', 'x', 'i', 't'] then .error (.exits 0 { st with addHistory := false })
    else if name = ['p', 's'] then .ok (0, { st.note .processes with addHistory := true })
    else .ok (2, st)

/-- `check_background`. -/
def checkBackground (argv : List Line) : Bool × List Line :=
  if 2 ≤ argv.length ∧ argv.getLast? = some ['&'] then (true, argv.dropLast) else (false, argv)

/-- `run_parent`. -/
def runParent (ending : Ending) (background : Bool) (st : State) : Except Stop (Int × State) :=
  if background then .ok (0, st)
  else
    match ending with
    | .exited status => .ok (if status = 0 then 0 else 1, st)
    | .signaled => .ok (0, st)
    | .waitFailed => .error (.exits 1 (st.note .waitFailed))
    | .forkFailed | .neither => .error (.exits 1 st)

/-- `make_fork`, in the parent. -/
def makeFork (argv : List Line) (st : State) : Except Stop (Int × State) :=
  let (background, argv) := checkBackground argv
  let ending := world.ending st.log argv background
  let st := st.note (.forks argv background)
  if ending = .forkFailed then .error (.exits 1 (st.note .forkFailed))
  else runParent ending background { st with addHistory := true }

/--
What `command_exec` does with each simple command: `ret_buildin`, and `ret_fork`, which stays what
it was at first if nothing is forked.
-/
def runSimple (place : Place) (st : State) : Except Stop ((Int × Int) × State) := do
  let command ← st.get place
  let (argv, st) ← readArgs place (st.note (.starts command))
  let (retBuildin, st) ← execBuildin world again (tokenised command) argv st
  if retBuildin = 2 then
    let (retFork, st) ← makeFork world argv st
    .ok ((retBuildin, retFork), st)
  else .ok ((retBuildin, 0), st)

/-- The end of `command_exec`: the line is stored as it is by now, and the parts are freed. -/
def finish (place : Place) (value : Int) (st : State) : Except Stop (Int × State) := do
  let line ← st.get place
  let history := if st.addHistory then st.history ++ [line] else st.history
  .ok (value, { st with history := history, firstCommand := none, secondCommand := none })

/-- The redirections of `command_exec`. -/
def redirect (place : Place) (operator : Operator) (st : State) : Except Stop (Int × State) := do
  let (getStdout, st) := st.dup 1
  let (getStdin, st) := st.dup 0
  let (argv, st) ← readArgs .second st
  let st := st.openOutput world operator argv.head?
  match st.commandOutput with
  | none => .ok (1, st.note .redirectionFileError)
  | some output =>
    if operator = .read then
      let (_, st) ← runSimple world again .first (st.dup2 output 0).closeOutput
      finish place 0 { (st.dup2 getStdin 0).close getStdin with addHistory := true }
    else
      let (_, st) ← runSimple world again .first st
      finish place 0 { (st.closeOutput.dup2 getStdout 1).close getStdout with addHistory := true }

/-- What `command_exec` returns for a simple command, decided by `ret_flag`. -/
def returned (ret : Int × Int) : Int := if ret.1 = 2 then ret.2 else ret.1

/-- The branches of `command_exec`. -/
def commandFlag (place : Place) : Option Operator → State → Except Stop (Int × State)
  | none, st => do
    let (ret, st) ← runSimple world again place st
    finish place (returned ret) st
  | some .and, st => do
    let (ret, st) ← runSimple world again .first st
    if ret.2 = 0 then
      let (_, st) ← runSimple world again .second st
      finish place (returned ret) st
    else finish place (returned ret) st
  | some .or, st => do
    let (ret, st) ← runSimple world again .first st
    if ret.2 = 1 then
      let (_, st) ← runSimple world again .second st
      finish place (returned ret) st
    else finish place (returned ret) st
  | some .sequence, st => do
    let (_, st) ← runSimple world again .first st
    let (_, st) ← runSimple world again .second st
    finish place 0 st
  | some operator, st => redirect world again place operator st

/-- `command_exec`, with the run of an entry of the history as a parameter. -/
def commandBody (place : Place) (st : State) : Except Stop (Int × State) := do
  let line ← st.get place
  let (flag, st) ← symbolicDicide line st
  commandFlag world again place flag st

/-- `command_exec`; entries that run entries without end leave the stack. -/
def commandExec : Nat → Exec
  | 0 => fun _ st => .error (.crashes st)
  | fuel + 1 => commandBody world (commandExec fuel)

end Commands

end SystemProgramming.Shell
