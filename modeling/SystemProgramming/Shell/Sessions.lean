import Mathlib.Data.List.TakeWhile
import SystemProgramming.Shell.History

/-! Sessions of the shell: the history file is read at the start and written at the end. -/

namespace SystemProgramming.Shell

open Foundations

/-- What is in a file. -/
abbrev Content := List Char

section Files

/-- `getline`: the next line with its newline, and what is behind it. -/
def getline (content : Content) : Option (Content × Content) :=
  if content = [] then none
  else
    let size := (content.takeWhile (· ≠ '\n')).length + 1
    some (content.take size, content.drop size)

/-- The string in the buffer of `getline`, without a newline at its end. -/
def strip (buffer : Content) : Line :=
  let string := buffer.takeWhile (· ≠ '\x00')
  if string.getLast? = some '\n' then string.dropLast else string

/-- The loops over `getline`; every turn takes at least one character away. -/
def getlines : Nat → Content → List Line
  | 0, _ => []
  | fuel + 1, content =>
    match getline content with
    | none => []
    | some (buffer, rest) => strip buffer :: getlines fuel rest

/-- The lines of a file. -/
def readLines (content : Content) : List Line := getlines content.length content

/-- The loop of `shell_destroy` over the history. -/
def writeLines (history : List Line) : Content := history.flatMap (· ++ ['\n'])

/-- A string that is a line of its own. -/
structure Clean (line : Line) : Prop where
  newline : '\n' ∉ line
  zero : '\x00' ∉ line

variable {line front : Line} {content rest : Content} {history : List Line} {fuel : Nat}

/-- The front of a line is one. -/
theorem Clean.of_prefix (clean : Clean line) (starts : front <+: line) : Clean front :=
  ⟨fun member => clean.newline (starts.subset member),
    fun member => clean.zero (starts.subset member)⟩

/-- A line that was written is the next one that is read. -/
theorem getline_line (clean : Clean line) :
    getline (line ++ '\n' :: rest) = some (line ++ ['\n'], rest) := by
  -- The newline behind the line is the first one.
  have whole : (line ++ '\n' :: rest).takeWhile (· ≠ '\n') = line := by
    have kept : ∀ character ∈ line, decide (character ≠ '\n') = true := by
      intro character member
      simpa using fun same : character = '\n' => clean.newline (same ▸ member)
    rw [List.takeWhile_append_of_pos kept]
    exact List.append_nil _
  rw [getline, if_neg (by simp), whole]
  simp [List.take_append, List.drop_append]

/-- Its newline is taken away. -/
theorem strip_line (clean : Clean line) : strip (line ++ ['\n']) = line := by
  -- No character of the line ends the string, and its newline does not either.
  have string : (line ++ ['\n']).takeWhile (· ≠ '\x00') = line ++ ['\n'] := by
    apply List.takeWhile_eq_self_iff.mpr
    intro character member
    rcases List.mem_append.mp member with inLine | last
    · simpa using fun same : character = '\x00' => clean.zero (same ▸ inLine)
    · obtain rfl := List.mem_singleton.mp last
      rfl
  simp only [strip, string, List.getLast?_append, List.getLast?_singleton, Option.some_or,
    if_pos, List.dropLast_concat]

/-- What was written is read again. -/
theorem readLines_writeLines (clean : ∀ line ∈ history, Clean line) :
    readLines (writeLines history) = history := by
  -- Any fuel is enough that is at least the length of the file.
  suffices enough : ∀ fuel, (writeLines history).length ≤ fuel →
      getlines fuel (writeLines history) = history from enough _ le_rfl
  induction history with
  | nil => intro fuel _; cases fuel <;> rfl
  | cons line history ih =>
    -- The first line is read, and the rest with the fuel that is left.
    obtain ⟨first, others⟩ := List.forall_mem_cons.mp clean
    have split : writeLines (line :: history) = line ++ '\n' :: writeLines history := by
      simp [writeLines]
    intro fuel enough
    rw [split] at enough ⊢
    simp only [List.length_append, List.length_cons] at enough
    obtain ⟨fuel, rfl⟩ : ∃ less, fuel = less + 1 := ⟨fuel - 1, by omega⟩
    rw [getlines, getline_line first]
    simp only [strip_line first]
    rw [ih others fuel (by omega)]

/-- What `getline` reads has a newline at its end only. -/
theorem getline_buffer {buffer : Content} (read : getline content = some (buffer, rest)) :
    ∃ front, '\n' ∉ front ∧ buffer <+: front ++ ['\n'] := by
  rw [getline] at read
  split at read
  · cases read
  · simp only [Option.some.injEq, Prod.mk.injEq] at read
    refine ⟨content.takeWhile (· ≠ '\n'), fun member => ?_, ?_⟩
    · simpa using List.mem_takeWhile_imp member
    · rw [← read.1]
      have split := List.takeWhile_append_dropWhile (p := (· ≠ '\n')) (l := content)
      conv_lhs =>
        arg 2
        rw [← split]
      rw [List.take_length_add_append, List.prefix_append_right_inj]
      -- Either the content ends without a newline, or the buffer takes it along.
      cases behind : content.dropWhile (· ≠ '\n') with
      | nil => exact List.nil_prefix
      | cons first others =>
        have stops := List.head?_dropWhile_not (· ≠ '\n') content
        rw [behind] at stops
        obtain rfl : first = '\n' := by simpa using stops
        exact List.prefix_rfl

/-- A buffer of `getline` is made a line of its own. -/
theorem strip_clean {buffer : Content} (read : getline content = some (buffer, rest)) :
    Clean (strip buffer) := by
  obtain ⟨front, plain, ends⟩ := getline_buffer read
  have nonzero : '\x00' ∉ buffer.takeWhile (· ≠ '\x00') := fun member => by
    simpa using List.mem_takeWhile_imp member
  rw [strip]
  -- A zero byte may have cut the buffer before its newline.
  rcases List.prefix_concat_iff.mp ((List.takeWhile_prefix _).trans ends) with whole | part
  · -- The newline is there, and taken away.
    rw [whole] at nonzero ⊢
    simp only [List.getLast?_append, List.getLast?_singleton, Option.some_or, if_pos,
      List.dropLast_concat]
    exact ⟨plain, fun member => nonzero (List.mem_append_left _ member)⟩
  · -- Cut before its end, the buffer has no newline to take away.
    have without : '\n' ∉ buffer.takeWhile (· ≠ '\x00') := fun member => plain (part.subset member)
    have other : (buffer.takeWhile (· ≠ '\x00')).getLast? ≠ some '\n' := fun last =>
      without (List.mem_of_getLast? last)
    rw [if_neg other]
    exact ⟨without, nonzero⟩

/-- All lines of a file are lines of their own. -/
theorem clean_of_readLines (member : line ∈ readLines content) : Clean line := by
  -- Induction on the turns of the loop, for any content that is left.
  suffices all : ∀ fuel content, ∀ line ∈ getlines fuel content, Clean line from
    all _ _ _ member
  intro fuel
  induction fuel with
  | zero => intro _ _ member; cases member
  | succ fuel ih =>
    intro content line member
    rw [getlines] at member
    cases read : getline content with
    | none => rw [read] at member; cases member
    | some taken =>
      rw [read] at member
      rcases List.mem_cons.mp member with rfl | later
      · exact strip_clean read
      · exact ih _ _ later

end Files

section Ageing

variable {Source : Line → Prop} {world : World} {again : Exec} {st st' : State}
  {argv : List Line} {command line : Line} {place : Place} {idx : Nat}

/-- All lines that can be stored come from somewhere. -/
structure Known (Source : Line → Prop) (st : State) : Prop where
  history : ∀ line ∈ st.history, Source line
  buffer : Source st.buffer

/-- Entries are added and cut off, and never otherwise changed, moved or taken away. -/
structure Older (history history' : List Line) : Prop where
  length : history.length ≤ history'.length
  shorter : ∀ idx < history.length, history'.getD idx [] <+: history.getD idx []

theorem Older.refl (history : List Line) : Older history history :=
  ⟨le_rfl, fun _ _ => List.prefix_rfl⟩

theorem Older.trans {history middle history' : List Line} (first : Older history middle)
    (second : Older middle history') : Older history history' where
  length := first.length.trans second.length
  shorter idx within :=
    (second.shorter idx (within.trans_le first.length)).trans (first.shorter idx within)

/-- A history that goes on is older. -/
theorem Older.of_prefix {history history' : List Line} (goes : history <+: history') :
    Older history history' := by
  obtain ⟨more, rfl⟩ := goes
  refine ⟨by simp, fun idx within => ?_⟩
  simp [List.getD_eq_getElem?_getD, List.getElem?_append_left within]

/-- The history gets older, and takes in nothing but fronts of known lines. -/
structure Ages (Source : Line → Prop) (st st' : State) : Prop
    extends Older st.history st'.history where
  known : Known Source st → Known Source st'

theorem Ages.refl (st : State) : Ages Source st st := ⟨Older.refl _, id⟩

theorem Ages.trans {middle : State} (first : Ages Source st middle)
    (second : Ages Source middle st') : Ages Source st st' :=
  ⟨first.toOlder.trans second.toOlder, second.known ∘ first.known⟩

/-- A change of other variables is none of the history. -/
theorem ages_of_same (history : st'.history = st.history) (buffer : st'.buffer = st.buffer) :
    Ages Source st st' where
  toOlder := by
    rw [history]
    exact Older.refl _
  known known := ⟨by rw [history]; exact known.history, by rw [buffer]; exact known.buffer⟩

theorem Aside.ages (aside : Aside st st') : Ages Source st st' :=
  ages_of_same aside.same.history aside.same.buffer

variable {Value Next : Type} {part : Except Stop (Value × State)}
  {rest : Value × State → Except Stop (Next × State)}

/-- Where a part ages the history and what follows it does, the whole does. -/
theorem ages_bind (first : Ages Source st (leaves part))
    (second : ∀ value after, Ages Source after (leaves (rest (value, after)))) :
    Ages Source st (leaves (part >>= rest)) := by
  -- A part that stops is the end.
  cases part with
  | error stop => exact first
  | ok result => exact first.trans (second result.1 result.2)

theorem ages_get {rest : Line → Except Stop (Next × State)}
    (behind : ∀ line, st.string place = some line → Ages Source st (leaves (rest line))) :
    Ages Source st (leaves (st.get place >>= rest)) := by
  -- A string that was never made is no line; the source would crash there.
  cases held : st.string place with
  | none =>
    rw [State.get, held]
    exact Ages.refl st
  | some line =>
    rw [State.get, held]
    exact behind line held

/-- What tokenising leaves of a line is its front. -/
theorem tokenised_prefix (line : Line) : tokenised line <+: line := by
  have spaces := List.takeWhile_append_dropWhile (p := (· = ' ')) (l := line)
  conv_rhs => rw [← spaces]
  rw [tokenised, List.prefix_append_right_inj]
  exact List.takeWhile_prefix _

/-- The line of a session or of the history is stored at the end. -/
theorem finish_ages (whole : place = .buffer ∨ ∃ idx, place = .entry idx) {value : Int} :
    Ages Source st (leaves (finish place value st)) := by
  rw [finish]
  apply ages_get
  intro line held
  -- The line is the buffer or an entry, so it is known.
  have source : Known Source st → Source line := by
    intro known
    obtain rfl | ⟨idx, rfl⟩ := whole
    · obtain rfl := Option.some.inj held
      exact known.buffer
    · exact known.history line (List.mem_of_getElem? held)
  simp only [leaves]
  -- Only with `add_history` set is the line stored.
  split
  · refine ⟨Older.of_prefix (List.prefix_append _ _), fun known => ⟨?_, known.buffer⟩⟩
    simpa [or_imp, forall_and] using ⟨known.history, source known⟩
  · exact ages_of_same rfl rfl

variable (closed : ∀ line front, front <+: line → Source line → Source front)

include closed

/-- A string that is cut off where it lies ages the history, if it lies there. -/
theorem overwrite_ages (held : st.string place = some line) :
    Ages Source st (st.overwrite (tokenised line) place) := by
  have cut := tokenised_prefix line
  -- Only an entry is a part of the history; strings of commands are copies.
  cases place with
  | buffer =>
    obtain rfl := Option.some.inj held
    exact ⟨Older.refl _, fun known => ⟨known.history, closed _ _ cut known.buffer⟩⟩
  | first | second => exact ages_of_same rfl rfl
  | entry idx =>
    obtain ⟨within, here⟩ := List.getElem?_eq_some_iff.mp held
    refine ⟨⟨by simp [State.overwrite], fun other bound => ?_⟩, fun known => ⟨?_, known.buffer⟩⟩
    · -- The entry itself gets shorter, and the others stay.
      by_cases same : idx = other
      · subst same
        simpa [State.overwrite, List.getD_eq_getElem?_getD, within, here] using cut
      · simp [State.overwrite, List.getD_eq_getElem?_getD, List.getElem?_set_ne same]
    · intro entry member
      rcases List.mem_or_eq_of_mem_set member with old | rfl
      · exact known.history entry old
      · exact closed _ _ cut (known.history line (here ▸ List.getElem_mem within))

variable (ages : ∀ idx st, Ages Source st (leaves (again (.entry idx) st)))

omit closed in
include ages in
theorem reexecute_ages : Ages Source st (leaves (reexecute again idx st)) := by
  rw [reexecute]
  apply ages_get
  intro line _
  -- The entry is printed first, which changes the log only.
  have noted : Ages Source st (st.note (.command line)) := ages_of_same rfl rfl
  exact noted.trans (ages_bind (ages idx _) fun _ _ => ages_of_same rfl rfl)

omit closed in
include ages in
theorem execBuildin_ages : Ages Source st (leaves (execBuildin world again command argv st)) := by
  have same : ∀ {after : State}, after.history = st.history → after.buffer = st.buffer →
      Ages Source st after := fun history buffer => ages_of_same history buffer
  cases argv with
  | nil => exact same rfl rfl
  | cons name arguments =>
    -- The cases are the names, in the order of the source; an entry that runs again may do more.
    rw [execBuildin]
    split
    · cases arguments with
      | nil => exact same rfl rfl
      | cons directory arguments =>
        simp only [handleCdCommand]
        split
        · exact same rfl rfl
        · exact same rfl rfl
    · split
      · exact same rfl rfl
      · split
        · rw [handleCallNumCommand]
          split
          · exact same rfl rfl
          · simp only
            split
            · exact same rfl rfl
            · exact reexecute_ages ages
        · split
          · rw [handleLatestSimilarCommand]
            split
            · exact reexecute_ages ages
            · split
              · exact reexecute_ages ages
              · exact same rfl rfl
          · split
            · exact same rfl rfl
            · split
              · exact same rfl rfl
              · exact Ages.refl st

omit closed in
theorem makeFork_ages : Ages Source st (leaves (makeFork world argv st)) := by
  rw [makeFork]
  simp only
  split
  · exact ages_of_same rfl rfl
  · unfold runParent
    split
    · exact ages_of_same rfl rfl
    · split
      · exact ages_of_same rfl rfl
      · exact ages_of_same rfl rfl
      · exact ages_of_same rfl rfl
      · exact ages_of_same rfl rfl
      · exact ages_of_same rfl rfl

include ages in
theorem runSimple_ages : Ages Source st (leaves (runSimple world again place st)) := by
  cases held : st.string place with
  | none =>
    rw [runSimple, State.get, held]
    exact Ages.refl st
  | some command =>
    -- The string is tokenised where it lies before anything else happens.
    rw [runSimple_eq held]
    have noted : Ages Source st (st.note (.starts command)) := ages_of_same rfl rfl
    have held' : (st.note (.starts command)).string place = some command := by
      rw [← held]
      cases place <;> rfl
    apply (noted.trans (overwrite_ages closed held')).trans
    apply ages_bind (execBuildin_ages ages)
    intro value after
    -- What is no built-in runs in a child, which does not touch the history.
    split
    · exact ages_bind makeFork_ages fun _ last => Ages.refl last
    · exact Ages.refl after

include ages in
theorem redirect_ages (whole : place = .buffer ∨ ∃ idx, place = .entry idx) {operator : Operator} :
    Ages Source st (leaves (redirect world again place operator st)) := by
  cases held : st.secondCommand with
  | none =>
    -- Without a second command the descriptors are changed already when the shell stops.
    have missing : ((st.dup 1).2.dup 0).2.string .second = none := held
    unfold redirect readArgs
    simp only [State.get, missing, Bind.bind, Except.bind]
    exact ages_of_same rfl rfl
  | some second =>
    have parted : Ages Source st { st with secondCommand := some (tokenised second) } :=
      ages_of_same rfl rfl
    -- Changes of descriptors do not touch the history.
    by_cases opens : Opens world st.log operator second
    · obtain ⟨before, restored, aside, keeps, done⟩ :=
        @redirect_opens world again st second operator place held opens
      rw [done]
      apply (parted.trans aside.ages).trans
      apply ages_bind (runSimple_ages closed ages)
      intro value after
      have marked : Ages Source after { after with addHistory := true } := ages_of_same rfl rfl
      exact (marked.trans (keeps after).ages).trans (finish_ages whole)
    · obtain ⟨after, done, aside⟩ :=
        @redirect_closed world again st second operator place held opens
      rw [done]
      exact (parted.trans aside.ages).trans (ages_of_same rfl rfl)

include ages in
theorem commandFlag_ages (whole : place = .buffer ∨ ∃ idx, place = .entry idx)
    (flag : Option Operator) :
    Ages Source st (leaves (commandFlag world again place flag st)) := by
  -- Every branch is one or two simple commands and the end, or a redirection.
  have once : ∀ {st : State} {place : Place},
      Ages Source st (leaves (runSimple world again place st)) := runSimple_ages closed ages
  cases flag with
  | none => exact ages_bind once fun _ _ => finish_ages whole
  | some operator =>
    -- Whether the second command runs may depend on how the first one ended.
    cases operator with
    | and | or =>
      apply ages_bind once
      intro ret after
      dsimp only
      split
      · exact ages_bind once fun _ _ => finish_ages whole
      · exact finish_ages whole
    | sequence => exact ages_bind once fun _ _ => ages_bind once fun _ _ => finish_ages whole
    | write | append | read => exact redirect_ages closed ages whole

include ages in
theorem commandBody_ages (whole : place = .buffer ∨ ∃ idx, place = .entry idx) :
    Ages Source st (leaves (commandBody world again place st)) := by
  rw [commandBody]
  apply ages_get
  intro line _
  have decided : Ages Source st (leaves (symbolicDicide line st)) := by
    rw [symbolicDicide]
    split
    · exact Ages.refl st
    · split
      · exact Ages.refl st
      · exact ages_of_same rfl rfl
  apply ages_bind decided
  intro flag after
  exact commandFlag_ages closed ages whole flag

omit ages in
/-- Whatever a line does, the history ages. -/
theorem commandExec_ages (world : World) (fuel : Nat)
    (whole : place = .buffer ∨ ∃ idx, place = .entry idx) (st : State) :
    Ages Source st (leaves (commandExec world fuel place st)) := by
  -- Induction on how many entries may run one another.
  induction fuel generalizing place st with
  | zero => exact Ages.refl st
  | succ fuel ih => exact commandBody_ages closed (fun idx st => ih (.inr ⟨idx, rfl⟩) st) whole

end Ageing

section Sessions

/-- An option that `getopt` finds. -/
inductive Opt where
  /-- `-h`, with the name of the history file. -/
  | history (path : Line)
  /-- `-f`, with the name of a script. -/
  | script (path : Line)
  /-- Any other one, or one without its argument. -/
  | unknown
  deriving DecidableEq, Repr

/-- The files by their full paths, and those that can be opened for writing. -/
structure Disk where
  content : Line → Option Content
  writable : Line → Bool

/-- A shell that is started: its options, what is typed, and what it finds outside. -/
structure Session where
  options : List Opt
  input : Content
  world : World
  /-- `getcwd` has room for the current directory. -/
  fits : List Event → Bool
  /-- How many entries may run one another before the stack is left. -/
  depth : Nat

/-- `check_cwd`. -/
def checkCwd (session : Session) (st : State) : Except Stop State :=
  if session.fits st.log then .ok st else .error (.exits 1 st)

/-- The loops that execute lines. -/
def executeLines (session : Session) : List Line → State → Except Stop State
  | [], st => .ok st
  | line :: rest, st => do
    let (_, st) ← commandExec session.world session.depth .buffer { st with buffer := line }
    let st ← checkCwd session st
    executeLines session rest st

/-- All lines of a file are executed, and the shell exits. -/
def execute (session : Session) (content : Content) (st : State) : Stop :=
  match checkCwd session st >>= executeLines session (readLines content) with
  | .ok st => .exits 0 st
  | .error stop => stop

/-- The loop of `shell` over the options, and what follows; with `file_name` at the end. -/
def runOptions (session : Session) (disk : Disk) :
    List Opt → Option Line → State → Option Line × Stop
  | [], fileName, st => (fileName, execute session session.input st)
  | .history path :: rest, _, st =>
    -- `a+` makes a file that is not there.
    if disk.writable path then
      runOptions session disk rest (some path)
        { st with history := st.history ++ readLines ((disk.content path).getD []) }
    -- `shell_destroy` closes a file that it could not open.
    else (some path, .crashes st)
  | .script path :: _, fileName, st =>
    match disk.content path with
    | some content => (fileName, execute session content st)
    | none => (fileName, .exits 1 st)
  | .unknown :: _, fileName, st => (fileName, .exits 1 st)

/-- The variables of a shell that is started. -/
def start : State where
  history := []
  addHistory := false
  firstCommand := none
  secondCommand := none
  commandOutput := none
  descriptors := [some (.inherited 0), some (.inherited 1), some (.inherited 2)]
  buffer := []
  log := []

/-- `shell_destroy`, as far as the files go. -/
def shellDestroy (disk : Disk) (fileName : Option Line) (st : State) : Disk :=
  match fileName with
  | some path =>
    { disk with content := Function.update disk.content path (some (writeLines st.history)) }
  | none => disk

/-- `shell`: the files behind it and its variables at its end, if it exits. -/
def shell (session : Session) (disk : Disk) : Option (Disk × State) :=
  match runOptions session disk session.options none start with
  | (fileName, .exits _ st) => some (shellDestroy disk fileName st, st)
  | (_, .crashes _) => none

/-- The lines that a session may execute: those that are typed, and those of its scripts. -/
def Session.typed (session : Session) (disk : Disk) : List Line :=
  readLines session.input ++ session.options.flatMap fun option => match option with
    | .script path => readLines ((disk.content path).getD [])
    | _ => []

/-- The history that a file holds. -/
def Disk.history (disk : Disk) (path : Line) : List Line :=
  readLines ((disk.content path).getD [])

variable {Source : Line → Prop} {session : Session} {disk : Disk} {st : State}

/-- The state of the shell behind lines that were executed, also if it stops. -/
def ended : Except Stop State → State
  | .ok st => st
  | .error stop => stop.state

/-- What a shell does to the history between its start and its end. -/
structure Keeps (Source : Line → Prop) (st st' : State) : Prop
    extends Older st.history st'.history where
  sources : (∀ line ∈ st.history, Source line) → ∀ line ∈ st'.history, Source line

theorem Keeps.refl (st : State) : Keeps Source st st := ⟨Older.refl _, id⟩

theorem Keeps.trans {middle st' : State} (first : Keeps Source st middle)
    (second : Keeps Source middle st') : Keeps Source st st' :=
  ⟨first.toOlder.trans second.toOlder, second.sources ∘ first.sources⟩

/-- Lines that are executed age the history. -/
theorem executeLines_keeps (closed : ∀ line front, front <+: line → Source line → Source front)
    {lines : List Line} (sources : ∀ line ∈ lines, Source line) (st : State) :
    Keeps Source st (ended (executeLines session lines st)) := by
  induction lines generalizing st with
  | nil => exact Keeps.refl st
  | cons line lines ih =>
    -- Each line is put into the buffer, so it has to be known.
    obtain ⟨first, others⟩ := List.forall_mem_cons.mp sources
    have ages : Ages Source { st with buffer := line } _ := commandExec_ages closed session.world
      session.depth (.inl rfl) { st with buffer := line }
    have sofar : Keeps Source st _ :=
      ⟨ages.toOlder, fun history => (ages.known ⟨history, first⟩).history⟩
    rw [executeLines]
    cases done : commandExec session.world session.depth .buffer { st with buffer := line } with
    | error stop =>
      rw [done] at sofar
      exact sofar
    | ok result =>
      rw [done] at sofar
      show Keeps Source st (ended (checkCwd session result.2 >>= executeLines session lines))
      -- Behind each line the shell exits if the directory is too long.
      rw [checkCwd]
      by_cases fits : session.fits result.2.log = true
      · rw [if_pos fits]
        exact sofar.trans (ih others _)
      · rw [if_neg fits]
        exact sofar

/-- So do all lines of a file. -/
theorem execute_keeps (closed : ∀ line front, front <+: line → Source line → Source front)
    {content : Content} (sources : ∀ line ∈ readLines content, Source line) (st : State) :
    Keeps Source st (execute session content st).state := by
  have keeps := @executeLines_keeps _ session closed _ sources st
  rw [execute, checkCwd]
  by_cases fits : session.fits st.log = true
  · rw [if_pos fits]
    show Keeps Source st (match executeLines session (readLines content) st with
      | .ok st => Stop.exits 0 st
      | .error stop => stop).state
    cases done : executeLines session (readLines content) st with
    | ok after =>
      rw [done] at keeps
      exact keeps
    | error stop =>
      rw [done] at keeps
      exact keeps
  · rw [if_neg fits]
    exact Keeps.refl st

/-- What the options leave in the history, when all history files are the same one. -/
structure Loaded (disk : Disk) (path : Line) (fileName : Option Line) (st : State) : Prop where
  none : fileName = none → st.history = []
  some : ∀ name, fileName = some name → name = path ∧ disk.history path <+: st.history
  lines : ∀ line ∈ st.history, line ∈ disk.history path

/-- The shell begins with what its options have loaded, and ages it. -/
theorem runOptions_keeps (closed : ∀ line front, front <+: line → Source line → Source front)
    {path : Line} {options : List Opt} {fileName file : Option Line} {status : Nat} {after : State}
    (only : ∀ other, Opt.history other ∈ options → other = path)
    (typed : ∀ line ∈ readLines session.input, Source line)
    (scripts : ∀ name, Opt.script name ∈ options → ∀ line ∈ disk.history name, Source line)
    (loaded : Loaded disk path fileName st)
    (ran : runOptions session disk options fileName st = (file, .exits status after)) :
    ∃ middle, Loaded disk path file middle ∧ Keeps Source middle after := by
  induction options generalizing fileName st with
  | nil =>
    obtain ⟨rfl, stop⟩ := Prod.mk.inj ran
    have keeps := @execute_keeps _ session closed _ typed st
    rw [stop] at keeps
    exact ⟨st, loaded, keeps⟩
  | cons option options ih =>
    -- A script ends the shell, so that no option behind it counts.
    cases option with
    | unknown =>
      cases ran
      exact ⟨_, loaded, Keeps.refl _⟩
    | script name =>
      rw [runOptions] at ran
      cases content : disk.content name with
      | none =>
        rw [content] at ran
        cases ran
        exact ⟨_, loaded, Keeps.refl _⟩
      | some text =>
        rw [content] at ran
        obtain ⟨rfl, stop⟩ := Prod.mk.inj ran
        have keeps := @execute_keeps _ session closed text (fun line member =>
          scripts name (by simp) line (by rwa [Disk.history, content])) st
        rw [stop] at keeps
        exact ⟨st, loaded, keeps⟩
    | history name =>
      -- All history files are the same one.
      obtain rfl := only name (by simp)
      rw [runOptions] at ran
      -- The lines of the file are added once for each time it is named.
      have more : Loaded disk name (some name)
          { st with history := st.history ++ readLines ((disk.content name).getD []) } := by
        refine ⟨nofun, ?_, ?_⟩
        · rintro _ ⟨⟩
          refine ⟨rfl, ?_⟩
          cases before : fileName with
          | none =>
            have empty := loaded.none before
            simp only [empty, List.nil_append]
            exact List.prefix_rfl
          | some other => exact (loaded.some other before).2.trans (List.prefix_append _ _)
        · intro line member
          rcases List.mem_append.mp member with old | new
          · exact loaded.lines line old
          · exact new
      by_cases writable : disk.writable name = true
      · rw [if_pos writable] at ran
        exact ih (fun other member => only other (List.mem_cons_of_mem _ member))
          (fun other member => scripts other (List.mem_cons_of_mem _ member)) more ran
      · rw [if_neg writable] at ran
        cases ran

variable {disk' : Disk} {path : Line} {after : State}

/-- All lines that a shell has in its history when it exits are lines of their own. -/
theorem clean_of_shell (only : ∀ other, Opt.history other ∈ session.options → other = path)
    (ran : shell session disk = some (disk', after)) : ∀ line ∈ after.history, Clean line := by
  rw [shell] at ran
  split at ran
  · next fileName status st found =>
    cases ran
    -- Nothing is loaded before the first option.
    have nothing : Loaded disk path none start := ⟨fun _ => rfl, nofun, nofun⟩
    obtain ⟨middle, loaded, keeps⟩ := @runOptions_keeps Clean session disk _
      (fun line front starts clean => clean.of_prefix starts) path _ _ _ _ _ only
      (fun line => clean_of_readLines) (fun name _ line => clean_of_readLines) nothing found
    exact keeps.sources fun line member => clean_of_readLines (loaded.lines line member)
  · cases ran

/-- A session that ends with `exit` or at the end of its input. -/
def Exits (disk : Disk) (session : Session) (disk' : Disk) : Prop :=
  ∃ after, shell session disk = some (disk', after)

/--
A shell that is started with the history file which another one has written begins with exactly the
history that the other one had when it exited, whatever was entered and however it ended.
-/
theorem shell_resumes {session later : Session} {disk disk' : Disk} {after : State}
    (only : ∀ other, Opt.history other ∈ session.options → other = path)
    (wrote : (runOptions session disk session.options none start).1 = some path)
    (ran : shell session disk = some (disk', after)) (options : later.options = [.history path])
    (writable : disk'.writable path = true) :
    runOptions later disk' later.options none start =
      (some path, execute later later.input { start with history := after.history }) := by
  have clean := clean_of_shell only ran
  rw [shell] at ran
  split at ran
  · next fileName status st found =>
    cases ran
    rw [found] at wrote
    obtain rfl : fileName = some path := wrote
    -- The file holds what the first shell had, line by line.
    have again : (shellDestroy disk (some path) after).history path = after.history := by
      simp only [shellDestroy, Disk.history, Function.update_self, Option.getD_some]
      exact readLines_writeLines clean
    rw [Disk.history] at again
    rw [options, runOptions, if_pos writable, runOptions, again]
    rfl
  · cases ran

section Samples

def sampleDisk : Disk where
  content path := if path = ['h'] then some ['p', 's', '\n'] else none
  writable _ := true

/-- `ls -l` is typed, and the input ends. -/
def sampleSession : Session where
  options := [.history ['h']]
  input := ['l', 's', ' ', '-', 'l', '\n']
  world := sampleWorld
  fits _ := true
  depth := 1

/-- The next shell begins with `ps` and `ls`. -/
theorem shell_resumes_sample : ∃ final, Exits sampleDisk sampleSession final ∧
    runOptions sampleSession final sampleSession.options none start =
      (some ['h'], execute sampleSession sampleSession.input
        { start with history := [['p', 's'], ['l', 's']] }) := by
  exact ⟨_, ⟨_, rfl⟩, @shell_resumes ['h'] sampleSession sampleSession sampleDisk _ _
    (by simp [sampleSession]) rfl rfl rfl rfl⟩

end Samples

end Sessions

end SystemProgramming.Shell
