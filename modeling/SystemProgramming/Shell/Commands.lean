import SystemProgramming.Shell.Shell

/-! What a simple command does, and what every line leaves as it is. -/

namespace SystemProgramming.Shell

section Binds

variable {Value Next : Type} {part : Except Stop (Value × State)}
  {rest : Value × State → Except Stop (Next × State)} {st st' : State}

theorem bind_eq_ok {First Last : Type} {part : Except Stop First} {rest : First → Except Stop Last}
    {result : Last} :
    part >>= rest = .ok result ↔ ∃ value, part = .ok value ∧ rest value = .ok result := by
  cases part with
  | error stop => simp [Bind.bind, Except.bind]
  | ok value => simp [Bind.bind, Except.bind]

theorem get_eq_ok {place : Place} {line : Line} :
    st.get place = .ok line ↔ st.string place = some line := by
  rw [State.get]
  cases st.string place <;> simp

/-- The state in which the shell stopped. -/
def Stop.state : Stop → State
  | exits _ st | crashes st => st

/-- The state that a part of the shell leaves, also if it stops. -/
def leaves : Except Stop (Value × State) → State
  | .ok (_, st) => st
  | .error stop => stop.state

/-- Events are only added, and entries of the history only changed or added. -/
structure Grows (st st' : State) : Prop where
  log : st.log <+: st'.log
  history : st.history.length ≤ st'.history.length

theorem Grows.refl (st : State) : Grows st st := ⟨List.prefix_rfl, Nat.le_refl _⟩

theorem Grows.trans {middle : State} (first : Grows st middle) (second : Grows middle st') :
    Grows st st' :=
  ⟨first.log.trans second.log, Nat.le_trans first.history second.history⟩

/-- Where a part grows and what follows it grows, the whole does. -/
theorem grows_bind (first : Grows st (leaves part))
    (second : ∀ value after, Grows after (leaves (rest (value, after)))) :
    Grows st (leaves (part >>= rest)) := by
  -- A part that stops is the end.
  cases part with
  | error stop => exact first
  | ok result => exact first.trans (second result.1 result.2)

theorem grows_get {place : Place} {rest : Line → Except Stop (Next × State)}
    (behind : ∀ line, st.string place = some line → Grows st (leaves (rest line))) :
    Grows st (leaves (st.get place >>= rest)) := by
  cases held : st.string place with
  | none =>
    rw [State.get, held]
    exact Grows.refl st
  | some line =>
    rw [State.get, held]
    exact behind line held

theorem Grows.note (st : State) (event : Event) : Grows st (st.note event) :=
  ⟨List.prefix_append _ _, Nat.le_refl _⟩

theorem Grows.overwrite (st : State) (line : Line) (place : Place) :
    Grows st (st.overwrite line place) := by
  refine ⟨by cases place <;> exact List.prefix_rfl, ?_⟩
  cases place <;> simp [State.overwrite]

end Binds

section Simple

variable {world : World} {again : Exec} {st st' : State} {argv : List Line} {command : Line}
  {place : Place} {idx : Nat}

/-- The entry of the history that a simple command runs again. -/
def reexecuted (history : List Line) : List Line → Option Nat
  | [] => none
  | name :: _ =>
    if name = ['!', 'h', 'i', 's', 't', 'o', 'r', 'y'] then none
    else if name.head? = some '#' then
      if name.tail = [] ∨ atoi name.tail < 0 ∨ history.length ≤ (atoi name.tail).toNat then none
      else some (atoi name.tail).toNat
    else if name.head? = some '!' then
      if name.tail = [] then some (history.length - 1)
      else latestSimilar name.tail history history.length
    else none

/-- The command is no built-in one. -/
def External : List Line → Prop
  | [] => False
  | name :: _ => name ≠ ['c', 'd'] ∧ name.head? ≠ some '#' ∧ name.head? ≠ some '!' ∧
      name ≠ ['e', 'x', 'i', 't'] ∧ name ≠ ['p', 's']

/-- The mark to store the line, behind a built-in command that runs no entry again. -/
def markAfter (mark : Bool) : List Line → Bool
  | [] => mark
  | name :: _ =>
    if name = ['#'] then mark
    else if name.head? = some '#' ∨ name.head? = some '!' ∨ name = ['e', 'x', 'i', 't'] then false
    else true

/-- Neither the history nor the buffers of the lines have changed. -/
structure Same (st st' : State) : Prop where
  history : st'.history = st.history
  first : st'.firstCommand = st.firstCommand
  second : st'.secondCommand = st.secondCommand
  buffer : st'.buffer = st.buffer

theorem Same.trans {middle : State} (one : Same st middle) (other : Same middle st') :
    Same st st' :=
  ⟨other.history.trans one.history, other.first.trans one.first, other.second.trans one.second,
    other.buffer.trans one.buffer⟩

/-- The entries that were run again are those that were printed before they were. -/
def entries (log : List Event) : List Line :=
  log.filterMap fun event => match event with
    | .command line => some line
    | _ => none

@[simp] theorem entries_append (log more : List Event) :
    entries (log ++ more) = entries log ++ entries more := List.filterMap_append

/-- A built-in command that runs an entry again is nothing but that. -/
theorem execBuildin_reexecuted (found : reexecuted st.history argv = some idx) :
    execBuildin world again command argv st = reexecute again idx st := by
  cases argv with
  | nil => cases found
  | cons name arguments =>
    rw [reexecuted] at found
    split at found
    · cases found
    · rename_i nothing
      split at found
      · rename_i number
        have other : name ≠ ['c', 'd'] := fun same => by simp [same] at number
        split at found
        · cases found
        · rename_i inside
          obtain rfl := Option.some.inj found
          simp only [not_or] at inside
          rw [execBuildin, if_neg other, if_neg nothing, if_pos number, handleCallNumCommand,
            if_neg inside.1]
          exact if_neg (not_or.mpr inside.2)
      · rename_i digitless
        split at found
        · rename_i text
          have other : name ≠ ['c', 'd'] := fun same => by simp [same] at text
          rw [execBuildin, if_neg other, if_neg nothing, if_neg digitless, if_pos text,
            handleLatestSimilarCommand]
          -- Without text behind it, the mark stands for the last entry.
          split at found
          · rename_i bare
            rw [if_pos bare, ← Option.some.inj found]
          · rename_i longer
            rw [if_neg longer, found]
        · cases found

/-- What a command that runs no entry again does to the state, when it returns. -/
structure Done (st st' : State) (mark : Bool) : Prop where
  same : Same st st'
  log : ∃ events, st'.log = st.log ++ events ∧ entries events = []
  mark : st'.addHistory = mark

theorem Done.trans {middle : State} {mark mark' : Bool} (one : Done st middle mark)
    (other : Done middle st' mark') : Done st st' mark' := by
  obtain ⟨events, log, plain⟩ := one.log
  obtain ⟨events', log', plain'⟩ := other.log
  refine ⟨one.same.trans other.same, ⟨events ++ events', ?_, ?_⟩, other.mark⟩
  · rw [log', log, List.append_assoc]
  · rw [entries_append, plain, plain']
    rfl

theorem handleCdCommand_done (arguments : List Line) (st : State) :
    Done st (handleCdCommand world arguments st).2 st.addHistory ∧
      (handleCdCommand world arguments st).1 ≠ 2 := by
  cases arguments with
  | nil => exact ⟨⟨⟨rfl, rfl, rfl, rfl⟩, ⟨_, rfl, rfl⟩, rfl⟩, by simp [handleCdCommand]⟩
  | cons directory arguments =>
    rw [handleCdCommand]
    split
    · exact ⟨⟨⟨rfl, rfl, rfl, rfl⟩, ⟨_, rfl, rfl⟩, rfl⟩, by simp⟩
    · exact ⟨⟨⟨rfl, rfl, rfl, rfl⟩, ⟨_, rfl, rfl⟩, rfl⟩, by simp⟩

/-- A number that names no entry does not bring the line to the history, unless it is missing. -/
theorem handleCallNumCommand_done {name : Line} {value : Int} (arguments : List Line)
    (number : name.head? = some '#')
    (missing : name.tail = [] ∨ atoi name.tail < 0 ∨ st.history.length ≤ (atoi name.tail).toNat)
    (returns : handleCallNumCommand again name st = .ok (value, st')) :
    value ≠ 2 ∧ Done st st' (markAfter st.addHistory (name :: arguments)) := by
  rw [handleCallNumCommand] at returns
  split at returns
  · -- Without a number, the mark is left as it was.
    rename_i bare
    have name_eq : name = ['#'] := by
      cases name with
      | nil => cases number
      | cons first rest =>
        obtain rfl := Option.some.inj number
        rw [show rest = [] from bare]
    obtain ⟨rfl, rfl⟩ := Prod.mk.inj (Except.ok.inj returns)
    exact ⟨by decide, ⟨rfl, rfl, rfl, rfl⟩, ⟨_, rfl, rfl⟩, by simp [markAfter, name_eq, State.note]⟩
  · rename_i some_number
    have different : name ≠ ['#'] := fun same => some_number (by rw [same]; rfl)
    simp only [if_pos (missing.resolve_left some_number)] at returns
    obtain ⟨rfl, rfl⟩ := Prod.mk.inj (Except.ok.inj returns)
    exact ⟨by decide, ⟨rfl, rfl, rfl, rfl⟩, ⟨_, rfl, rfl⟩, by simp [markAfter, different, number]⟩

/-- Nor does a text that no entry starts with. -/
theorem handleLatestSimilarCommand_done {name : Line} {value : Int} (arguments : List Line)
    (text : name.head? = some '!') (longer : name.tail ≠ [])
    (none : latestSimilar name.tail st.history st.history.length = none)
    (returns : handleLatestSimilarCommand again name st = .ok (value, st')) :
    value ≠ 2 ∧ Done st st' (markAfter st.addHistory (name :: arguments)) := by
  have different : name ≠ ['#'] := fun same => by simp [same] at text
  rw [handleLatestSimilarCommand, if_neg longer, none] at returns
  obtain ⟨rfl, rfl⟩ := Prod.mk.inj (Except.ok.inj returns)
  exact ⟨by decide, ⟨rfl, rfl, rfl, rfl⟩, ⟨_, rfl, rfl⟩, by simp [markAfter, different, text]⟩

/-- A built-in command that runs no entry again does nothing to the history itself. -/
theorem execBuildin_done {value : Int} (none : reexecuted st.history argv = none)
    (returns : execBuildin world again command argv st = .ok (value, st')) :
    (value = 2 ∧ External argv ∧ st' = st) ∨
      (value ≠ 2 ∧ ¬ External argv ∧ Done st st' (markAfter st.addHistory argv)) := by
  cases argv with
  | nil =>
    obtain ⟨rfl, rfl⟩ := Prod.mk.inj (Except.ok.inj returns)
    exact .inr ⟨by decide, id, ⟨rfl, rfl, rfl, rfl⟩, ⟨_, rfl, rfl⟩, rfl⟩
  | cons name arguments =>
    rw [execBuildin] at returns
    rw [reexecuted] at none
    -- The cases are the names, in the order of the source.
    split at returns
    · rename_i cd
      have done := @handleCdCommand_done world arguments
        { st with addHistory := true }
      obtain ⟨rfl, rfl⟩ := Prod.mk.inj (Except.ok.inj returns)
      refine .inr ⟨done.2, by simp [External, cd], ⟨done.1.same.history, done.1.same.first,
        done.1.same.second, done.1.same.buffer⟩, done.1.log, ?_⟩
      exact done.1.mark.trans (by simp [markAfter, cd])
    · rename_i known
      split at returns
      · rename_i history
        obtain ⟨rfl, rfl⟩ := Prod.mk.inj (Except.ok.inj returns)
        refine .inr ⟨by decide, by simp [External, history], ⟨rfl, rfl, rfl, rfl⟩,
          ⟨_, rfl, ?_⟩, by simp [markAfter, history]⟩
        simp [entries]
      · rename_i other
        rw [if_neg other] at none
        split at returns
        · rename_i number
          rw [if_pos number] at none
          -- The index is no index of an entry, or that would be run again.
          have missing : name.tail = [] ∨ atoi name.tail < 0 ∨
              st.history.length ≤ (atoi name.tail).toNat := by
            by_contra inside
            rw [if_neg inside] at none
            cases none
          obtain ⟨failed, done⟩ := handleCallNumCommand_done arguments number missing returns
          exact .inr ⟨failed, by simp [External, number], done⟩
        · rename_i digitless
          rw [if_neg digitless] at none
          split at returns
          · rename_i text
            rw [if_pos text] at none
            -- Without a text, the last entry would be run again.
            have longer : name.tail ≠ [] := by
              intro bare
              rw [if_pos bare] at none
              cases none
            rw [if_neg longer] at none
            obtain ⟨failed, done⟩ := handleLatestSimilarCommand_done arguments text longer none returns
            exact .inr ⟨failed, by simp [External, text], done⟩
          · rename_i textless
            split at returns
            · cases returns
            · rename_i stays
              have different : name ≠ ['#'] := fun same => by simp [same] at digitless
              split at returns
              · rename_i ps
                obtain ⟨rfl, rfl⟩ := Prod.mk.inj (Except.ok.inj returns)
                exact .inr ⟨by decide, by simp [External, ps], ⟨rfl, rfl, rfl, rfl⟩, ⟨_, rfl, rfl⟩,
                  by simp [markAfter, ps]⟩
              · rename_i unknown
                obtain ⟨rfl, rfl⟩ := Prod.mk.inj (Except.ok.inj returns)
                exact .inl ⟨rfl, ⟨known, digitless, textless, stays, unknown⟩, rfl⟩

/-- How the child of an external command ends. -/
def endingOf (world : World) (log : List Event) (argv : List Line) : Ending :=
  world.ending log (checkBackground argv).2 (checkBackground argv).1

/-- A fork that returns marks the line, and tells the exit status of a child that was waited for. -/
theorem makeFork_done {value : Int} (returns : makeFork world argv st = .ok (value, st')) :
    Done st st' true ∧
      (value = 0 ∧ ((checkBackground argv).1 = true ∨ endingOf world st.log argv = .signaled) ∨
        (checkBackground argv).1 = false ∧ ∃ status, endingOf world st.log argv = .exited status ∧
          value = if status = 0 then 0 else 1) := by
  rw [makeFork] at returns
  simp only at returns
  split at returns
  · cases returns
  · unfold runParent at returns
    split at returns
    · rename_i background
      obtain ⟨rfl, rfl⟩ := Prod.mk.inj (Except.ok.inj returns)
      exact ⟨⟨⟨rfl, rfl, rfl, rfl⟩, ⟨_, rfl, rfl⟩, rfl⟩, .inl ⟨rfl, .inl background⟩⟩
    · rename_i foreground
      -- Of the ways to end, only two let the shell go on.
      split at returns
      · rename_i status ended
        obtain ⟨rfl, rfl⟩ := Prod.mk.inj (Except.ok.inj returns)
        exact ⟨⟨⟨rfl, rfl, rfl, rfl⟩, ⟨_, rfl, rfl⟩, rfl⟩,
          .inr ⟨by simpa using foreground, status, ended, rfl⟩⟩
      · rename_i ended
        obtain ⟨rfl, rfl⟩ := Prod.mk.inj (Except.ok.inj returns)
        exact ⟨⟨⟨rfl, rfl, rfl, rfl⟩, ⟨_, rfl, rfl⟩, rfl⟩, .inl ⟨rfl, .inr ended⟩⟩
      · cases returns
      · cases returns
      · cases returns

/-- The state in which a simple command is executed: noted, and tokenised where it lies. -/
def State.started (st : State) (command : Line) (place : Place) : State :=
  (st.note (.starts command)).overwrite (tokenised command) place

theorem runSimple_eq (held : st.string place = some command) :
    runSimple world again place st =
      (execBuildin world again (tokenised command) (words command) (st.started command place) >>=
        fun result => if result.1 = 2 then
          makeFork world (words command) result.2 >>= fun forked =>
            .ok ((result.1, forked.1), forked.2)
        else .ok ((result.1, 0), result.2)) := by
  have held' : (st.note (.starts command)).string place = some command := by
    cases place <;> exact held
  have read : readArgs place (st.note (.starts command)) =
      .ok (words command, st.started command place) := by
    unfold readArgs
    rw [get_eq_ok.mpr held']
    rfl
  rw [runSimple, get_eq_ok.mpr held]
  show (readArgs place (st.note (.starts command)) >>= _) = _
  rw [read]
  rfl

/-- A simple command that returns was a built-in one, or one that was forked. -/
theorem runSimple_eq_ok {retBuildin retFork : Int} (held : st.string place = some command) :
    runSimple world again place st = .ok ((retBuildin, retFork), st') ↔
      (retBuildin ≠ 2 ∧ retFork = 0 ∧
        execBuildin world again (tokenised command) (words command) (st.started command place) =
          .ok (retBuildin, st')) ∨
      (retBuildin = 2 ∧ ∃ middle,
        execBuildin world again (tokenised command) (words command) (st.started command place) =
          .ok (2, middle) ∧ makeFork world (words command) middle = .ok (retFork, st')) := by
  rw [runSimple_eq held, bind_eq_ok]
  constructor
  · rintro ⟨⟨value, middle⟩, buildin, rest⟩
    -- The value 2 asks for a child.
    split at rest
    · rename_i forked
      obtain rfl : value = 2 := forked
      obtain ⟨⟨code, after⟩, done, same⟩ := bind_eq_ok.mp rest
      obtain ⟨both, rfl⟩ := Prod.mk.inj (Except.ok.inj same)
      obtain ⟨rfl, rfl⟩ := Prod.mk.inj both
      exact .inr ⟨rfl, middle, buildin, done⟩
    · rename_i known
      obtain ⟨both, rfl⟩ := Prod.mk.inj (Except.ok.inj rest)
      obtain ⟨rfl, rfl⟩ := Prod.mk.inj both
      exact .inl ⟨known, rfl, buildin⟩
  · rintro (⟨known, rfl, buildin⟩ | ⟨rfl, middle, buildin, forked⟩)
    · exact ⟨(retBuildin, st'), buildin, if_neg known⟩
    · exact ⟨(2, middle), buildin, by rw [if_pos rfl, forked]; rfl⟩

end Simple

section Redirections

variable {world : World} {again : Exec} {st st' : State} {second : Line} {operator : Operator}
  {place : Place}

/-- Only the descriptors are others. -/
structure Aside (st st' : State) : Prop where
  same : Same st st'
  mark : st'.addHistory = st.addHistory
  log : st'.log = st.log

theorem Aside.trans {middle : State} (one : Aside st middle) (other : Aside middle st') :
    Aside st st' :=
  ⟨one.same.trans other.same, other.mark.trans one.mark, other.log.trans one.log⟩

theorem openOutput_aside (world : World) (operator : Operator) (name : Option Line) (st : State) :
    Aside st (st.openOutput world operator name) := by
  cases name with
  | none => exact ⟨⟨rfl, rfl, rfl, rfl⟩, rfl, rfl⟩
  | some name =>
    rw [State.openOutput]
    split <;> exact ⟨⟨rfl, rfl, rfl, rfl⟩, rfl, rfl⟩

theorem closeOutput_aside (st : State) : Aside st st.closeOutput := by
  rw [State.closeOutput]
  split <;> exact ⟨⟨rfl, rfl, rfl, rfl⟩, rfl, rfl⟩

theorem dup2_aside (st : State) (source target : Nat) : Aside st (st.dup2 source target) :=
  ⟨⟨rfl, rfl, rfl, rfl⟩, rfl, rfl⟩

/-- The operators for redirections. -/
def Operator.Redirects : Operator → Prop
  | and | or | sequence => False
  | write | append | read => True

/-- The file of a redirection opens. -/
def Opens (world : World) (log : List Event) (operator : Operator) (second : Line) : Prop :=
  ∃ name, (words second).head? = some name ∧ world.opens log name operator = true

/-- The state of a redirection in which its file is opened. -/
def State.prepared (st : State) (second : Line) : State :=
  ((st.dup 1).2.dup 0).2.overwrite (tokenised second) .second

theorem prepared_aside (st : State) (second : Line) :
    Aside { st with secondCommand := some (tokenised second) } (st.prepared second) :=
  ⟨⟨rfl, rfl, rfl, rfl⟩, rfl, rfl⟩

theorem openOutput_isSome_iff {name : Option Line} :
    (st.openOutput world operator name).commandOutput ≠ none ↔
      ∃ found, name = some found ∧ world.opens st.log found operator = true := by
  cases name with
  | none => simp [State.openOutput]
  | some name =>
    rw [State.openOutput]
    split <;> simp [*]

/-- A redirection reads the name of its file, and goes on if that opens. -/
theorem redirect_eq (held : st.secondCommand = some second) :
    redirect world again place operator st =
      (match ((st.prepared second).openOutput world operator (words second).head?).commandOutput with
      | none => .ok (1, ((st.prepared second).openOutput world operator (words second).head?).note
          .redirectionFileError)
      | some output =>
        if operator = .read then
          runSimple world again .first ((((st.prepared second).openOutput world operator
            (words second).head?).dup2 output 0).closeOutput) >>= fun result =>
              finish place 0 { (result.2.dup2 ((st.dup 1).2.dup 0).1 0).close
                ((st.dup 1).2.dup 0).1 with addHistory := true }
        else
          runSimple world again .first ((st.prepared second).openOutput world operator
            (words second).head?) >>= fun result =>
              finish place 0 { (result.2.closeOutput.dup2 (st.dup 1).1 1).close (st.dup 1).1 with
                addHistory := true }) := by
  -- Duplicating descriptors does not touch the second command.
  have read : readArgs .second ((st.dup 1).2.dup 0).2 = .ok (words second, st.prepared second) := by
    unfold readArgs
    rw [get_eq_ok.mpr (show ((st.dup 1).2.dup 0).2.string .second = some second from held)]
    rfl
  show (readArgs .second ((st.dup 1).2.dup 0).2 >>= _) = _
  rw [read]
  rfl

/-- A redirection whose file does not open ends the command at once. -/
theorem redirect_closed (held : st.secondCommand = some second)
    (closed : ¬ Opens world st.log operator second) :
    ∃ after, redirect world again place operator st =
        .ok (1, after.note .redirectionFileError) ∧
      Aside { st with secondCommand := some (tokenised second) } after := by
  have nothing : ((st.prepared second).openOutput world operator
      (words second).head?).commandOutput = none := by
    by_contra some_output
    exact closed ((@openOutput_isSome_iff world (st.prepared second) operator _).mp some_output)
  refine ⟨(st.prepared second).openOutput world operator (words second).head?, ?_, ?_⟩
  · rw [redirect_eq held, nothing]
  · exact (prepared_aside st second).trans (openOutput_aside _ _ _ _)

/-- Another one is a run of the first part, with nothing but descriptors changed around it. -/
theorem redirect_opens (held : st.secondCommand = some second)
    (opens : Opens world st.log operator second) :
    ∃ (before : State) (restored : State → State),
      Aside { st with secondCommand := some (tokenised second) } before ∧
      (∀ middle, Aside { middle with addHistory := true } (restored middle)) ∧
      redirect world again place operator st = (runSimple world again .first before >>=
        fun result => finish place 0 (restored result.2)) := by
  obtain ⟨output, opened⟩ := Option.ne_none_iff_exists'.mp
    ((@openOutput_isSome_iff world (st.prepared second) operator (words second).head?).mpr opens)
  have aside := (prepared_aside st second).trans
    (openOutput_aside world operator (words second).head? (st.prepared second))
  -- With `<` the standard input is replaced and put back, and otherwise the standard output.
  by_cases input : operator = .read
  · refine ⟨_, fun middle => { (middle.dup2 ((st.dup 1).2.dup 0).1 0).close
      ((st.dup 1).2.dup 0).1 with addHistory := true },
      (aside.trans (dup2_aside _ output 0)).trans (closeOutput_aside _),
      fun middle => ⟨⟨rfl, rfl, rfl, rfl⟩, rfl, rfl⟩, ?_⟩
    rw [redirect_eq held, opened]
    exact if_pos input
  · refine ⟨_, fun middle => { (middle.closeOutput.dup2 (st.dup 1).1 1).close (st.dup 1).1 with
      addHistory := true }, aside, fun middle => ?_, ?_⟩
    · have closed := closeOutput_aside middle
      exact ⟨⟨closed.same.history, closed.same.first, closed.same.second, closed.same.buffer⟩, rfl,
        closed.log⟩
    · rw [redirect_eq held, opened]
      exact if_neg input

end Redirections

section Growth

variable {world : World} {again : Exec} {st : State} {argv : List Line} {command : Line}
  {place : Place} {idx : Nat}

theorem reexecute_grows (grows : ∀ place st, Grows st (leaves (again place st))) :
    Grows st (leaves (reexecute again idx st)) := by
  rw [reexecute]
  apply grows_get
  intro line _
  apply Grows.trans (Grows.note st (.command line))
  apply grows_bind (grows _ _)
  intro value after
  exact ⟨List.prefix_rfl, Nat.le_refl _⟩

theorem execBuildin_grows (grows : ∀ place st, Grows st (leaves (again place st))) :
    Grows st (leaves (execBuildin world again command argv st)) := by
  have same : ∀ {after : State}, after.history = st.history → st.log <+: after.log →
      Grows st after := fun history log => ⟨log, by rw [history]⟩
  cases argv with
  | nil => exact Grows.note st _
  | cons name arguments =>
    -- The cases are the names, in the order of the source; an entry that runs again may do more.
    rw [execBuildin]
    split
    · cases arguments with
      | nil => exact same rfl (List.prefix_append _ _)
      | cons directory arguments =>
        simp only [handleCdCommand]
        split
        · exact same rfl (List.prefix_append _ _)
        · exact same rfl (List.prefix_append _ _)
    · split
      · exact same rfl (List.prefix_append _ _)
      · split
        · rw [handleCallNumCommand]
          split
          · exact same rfl (List.prefix_append _ _)
          · simp only
            split
            · exact same rfl (List.prefix_append _ _)
            · exact reexecute_grows grows
        · split
          · rw [handleLatestSimilarCommand]
            split
            · exact reexecute_grows grows
            · split
              · exact reexecute_grows grows
              · exact same rfl (List.prefix_append _ _)
          · split
            · exact same rfl List.prefix_rfl
            · split
              · exact same rfl (List.prefix_append _ _)
              · exact Grows.refl st

theorem makeFork_grows : Grows st (leaves (makeFork world argv st)) := by
  rw [makeFork]
  simp only
  split
  · exact ⟨(List.prefix_append _ _).trans (List.prefix_append _ _), Nat.le_refl _⟩
  · unfold runParent
    split
    · exact ⟨List.prefix_append _ _, Nat.le_refl _⟩
    · split
      · exact ⟨List.prefix_append _ _, Nat.le_refl _⟩
      · exact ⟨List.prefix_append _ _, Nat.le_refl _⟩
      · exact ⟨(List.prefix_append _ _).trans (List.prefix_append _ _), Nat.le_refl _⟩
      · exact ⟨List.prefix_append _ _, Nat.le_refl _⟩
      · exact ⟨List.prefix_append _ _, Nat.le_refl _⟩

theorem started_grows (st : State) (command : Line) (place : Place) :
    Grows (st.note (.starts command)) (st.started command place) := Grows.overwrite _ _ _

/-- A simple command that is there is noted first. -/
theorem runSimple_grows (grows : ∀ place st, Grows st (leaves (again place st)))
    (held : st.string place = some command) :
    Grows (st.note (.starts command)) (leaves (runSimple world again place st)) := by
  rw [runSimple_eq held]
  apply Grows.trans (started_grows st command place)
  apply grows_bind (execBuildin_grows grows)
  intro value after
  split
  · apply grows_bind makeFork_grows
    intro code last
    exact Grows.refl last
  · exact Grows.refl after

theorem runSimple_grows_any (grows : ∀ place st, Grows st (leaves (again place st))) :
    Grows st (leaves (runSimple world again place st)) := by
  cases held : st.string place with
  | some command => exact (Grows.note st _).trans (runSimple_grows grows held)
  | none =>
    rw [runSimple, State.get, held]
    exact Grows.refl st

theorem finish_grows {value : Int} : Grows st (leaves (finish place value st)) := by
  rw [finish]
  apply grows_get
  intro line _
  refine ⟨List.prefix_rfl, ?_⟩
  simp only [leaves]
  split
  · simp
  · exact Nat.le_refl _

theorem Aside.grows {st' : State} (aside : Aside st st') : Grows st st' :=
  ⟨by rw [aside.log], by rw [aside.same.history]⟩

theorem redirect_grows (grows : ∀ place st, Grows st (leaves (again place st)))
    {operator : Operator} : Grows st (leaves (redirect world again place operator st)) := by
  cases held : st.secondCommand with
  | none =>
    have missing : ((st.dup 1).2.dup 0).2.string .second = none := held
    unfold redirect readArgs
    simp only [State.get, missing, Bind.bind, Except.bind]
    exact ⟨List.prefix_rfl, Nat.le_refl _⟩
  | some second =>
    -- Changes of descriptors do not touch the log or the history.
    by_cases opens : Opens world st.log operator second
    · obtain ⟨before, restored, aside, keeps, done⟩ :=
        @redirect_opens world again st second operator place held opens
      rw [done]
      have begun : Grows st before := ⟨by rw [aside.log], by rw [aside.same.history]⟩
      apply begun.trans
      apply grows_bind (runSimple_grows_any grows)
      intro value after
      have ended : Grows after (restored after) :=
        ⟨by rw [(keeps after).log], by rw [(keeps after).same.history]⟩
      exact ended.trans finish_grows
    · obtain ⟨after, done, aside⟩ :=
        @redirect_closed world again st second operator place held opens
      rw [done]
      have begun : Grows st after := ⟨by rw [aside.log], by rw [aside.same.history]⟩
      exact begun.trans (Grows.note after _)

theorem commandFlag_grows (grows : ∀ place st, Grows st (leaves (again place st)))
    (flag : Option Operator) : Grows st (leaves (commandFlag world again place flag st)) := by
  -- Every branch is one or two simple commands and the end, or a redirection.
  cases flag with
  | none => exact grows_bind (runSimple_grows_any grows) fun _ _ => finish_grows
  | some operator =>
    cases operator with
    | and =>
      apply grows_bind (runSimple_grows_any grows)
      intro ret after
      dsimp only
      split
      · exact grows_bind (runSimple_grows_any grows) fun _ _ => finish_grows
      · exact finish_grows
    | or =>
      apply grows_bind (runSimple_grows_any grows)
      intro ret after
      dsimp only
      split
      · exact grows_bind (runSimple_grows_any grows) fun _ _ => finish_grows
      · exact finish_grows
    | sequence =>
      apply grows_bind (runSimple_grows_any grows)
      intro ret after
      exact grows_bind (runSimple_grows_any grows) fun _ _ => finish_grows
    | write => exact redirect_grows grows
    | append => exact redirect_grows grows
    | read => exact redirect_grows grows

theorem commandBody_grows (grows : ∀ place st, Grows st (leaves (again place st))) :
    Grows st (leaves (commandBody world again place st)) := by
  rw [commandBody]
  apply grows_get
  intro line _
  have decided : Grows st (leaves (symbolicDicide line st)) := by
    rw [symbolicDicide]
    split
    · exact Grows.refl st
    · split
      · exact Grows.refl st
      · exact ⟨List.prefix_rfl, Nat.le_refl _⟩
  apply grows_bind decided
  intro flag after
  exact commandFlag_grows grows flag

/-- Whatever a line does, events are only added and no entry of the history is taken away. -/
theorem commandExec_grows (world : World) (fuel : Nat) (place : Place) (st : State) :
    Grows st (leaves (commandExec world fuel place st)) := by
  induction fuel generalizing place st with
  | zero => exact Grows.refl st
  | succ fuel ih => exact commandBody_grows ih

end Growth

end SystemProgramming.Shell
