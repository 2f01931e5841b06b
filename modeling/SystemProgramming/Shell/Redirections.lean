import SystemProgramming.Shell.History

/-! What a redirection leaves behind: descriptors that are never closed. -/

namespace SystemProgramming.Shell

section Files

variable {st st' middle : State} {file other : File} {descriptor target : Nat}

/-- What a descriptor refers to, if it is open. -/
def State.referent (st : State) (descriptor : Nat) : Option File := st.descriptors[descriptor]?.join

/-- Neither the descriptors nor the stream of the redirection have changed. -/
structure Undisturbed (st st' : State) : Prop where
  descriptors : st'.descriptors = st.descriptors
  output : st'.commandOutput = st.commandOutput

/-- What was open still refers to the same files, and the stream is the same one or closed. -/
structure Retains (st st' : State) : Prop where
  files : ∀ descriptor file, st.referent descriptor = some file → st'.referent descriptor = some file
  output : st'.commandOutput = st.commandOutput ∨ st'.commandOutput = none

theorem Undisturbed.retains (undisturbed : Undisturbed st st') : Retains st st' := by
  refine ⟨fun descriptor file held => ?_, .inl undisturbed.output⟩
  rw [State.referent, undisturbed.descriptors]
  exact held

theorem Retains.trans (one : Retains st middle) (more : Retains middle st') : Retains st st' := by
  refine ⟨fun descriptor file held => more.files _ _ (one.files _ _ held), ?_⟩
  rcases more.output with same | closed
  · rw [same]
    exact one.output
  · exact .inr closed

/-- The standard input and the standard output are open. -/
structure Standard (st : State) : Prop where
  input : ∃ file, st.referent 0 = some file
  output : ∃ file, st.referent 1 = some file

theorem Retains.standard (retains : Retains st st') (standard : Standard st) : Standard st' := by
  obtain ⟨⟨input, held⟩, ⟨output, held'⟩⟩ := standard
  exact ⟨⟨input, retains.files _ _ held⟩, ⟨output, retains.files _ _ held'⟩⟩

/-- A descriptor that is set, if the table is long enough for it. -/
theorem referent_set (inside : target < st.descriptors.length) (value : Option File)
    (changed : st'.descriptors = st.descriptors.set target value) (descriptor : Nat) :
    st'.referent descriptor = if descriptor = target then value else st.referent descriptor := by
  rw [State.referent, State.referent, changed, List.getElem?_set]
  by_cases same : descriptor = target
  · subst same
    rw [if_pos rfl, if_pos rfl, if_pos inside]
    rfl
  · rw [if_neg (Ne.symm same), if_neg same]

theorem inside_of_referent (held : st.referent descriptor = some file) :
    descriptor < st.descriptors.length := by
  by_contra outside
  rw [State.referent, List.getElem?_eq_none (Nat.le_of_not_lt outside)] at held
  cases held

/-- A descriptor that was not open is the only one that has changed, and refers to a file. -/
structure Adds (st st' : State) (descriptor : Nat) (file : File) : Prop where
  fresh : st.referent descriptor = none
  others : ∀ other, st'.referent other = if other = descriptor then some file else st.referent other

theorem allocate_adds (st : State) (file : File) :
    Adds st (st.allocate (some file)).2 (st.allocate (some file)).1 file := by
  suffices adds : ∀ descriptor, st.descriptors.findIdx (· = none) = descriptor →
      Adds st { st with
        descriptors := if descriptor < st.descriptors.length
          then st.descriptors.set descriptor (some file)
          else st.descriptors ++ [some file] } descriptor file from adds _ rfl
  intro descriptor found
  by_cases inside : descriptor < st.descriptors.length
  · -- A closed descriptor is used again.
    have closed : st.descriptors[descriptor] = none := by
      subst found
      simpa using @List.findIdx_getElem _ (fun file : Option File => decide (file = none)) _ inside
    rw [if_pos inside]
    refine ⟨?_, referent_set inside (some file) rfl⟩
    rw [State.referent, List.getElem?_eq_getElem inside, closed]
    rfl
  · obtain rfl : descriptor = st.descriptors.length :=
      Nat.le_antisymm (found ▸ List.findIdx_le_length) (Nat.le_of_not_lt inside)
    rw [if_neg inside]
    refine ⟨?_, fun other => ?_⟩
    · rw [State.referent, List.getElem?_eq_none (Nat.le_refl _)]
      rfl
    · rw [State.referent, State.referent]
      rcases Nat.lt_trichotomy other st.descriptors.length with less | rfl | more
      · rw [if_neg (Nat.ne_of_lt less), List.getElem?_append_left less]
      · rw [if_pos rfl, List.getElem?_concat_length]
        rfl
      · rw [if_neg (Nat.ne_of_gt more), List.getElem?_eq_none, List.getElem?_eq_none]
        · exact Nat.le_of_lt more
        · rw [List.length_append, List.length_singleton]
          omega

/-- `dup` of an open descriptor. -/
theorem dup_adds (held : st.referent target = some file) :
    Adds st (st.dup target).2 (st.dup target).1 file := by
  have allocated := allocate_adds st file
  rw [← held] at allocated
  exact allocated

/-- `dup2` onto an open descriptor. -/
theorem referent_dup2 (held : st.referent target = some file) (source descriptor : Nat) :
    (st.dup2 source target).referent descriptor =
      if descriptor = target then st.referent source else st.referent descriptor :=
  referent_set (inside_of_referent held) (st.referent source) rfl descriptor

/-- `close` of an open descriptor. -/
theorem referent_close (held : st.referent target = some file) (descriptor : Nat) :
    (st.close target).referent descriptor =
      if descriptor = target then none else st.referent descriptor :=
  referent_set (inside_of_referent held) none rfl descriptor

theorem Adds.added (adds : Adds st st' descriptor file) : st'.referent descriptor = some file := by
  rw [adds.others, if_pos rfl]

theorem Adds.apart (adds : Adds st st' descriptor file) {target : Nat}
    (held : st.referent target = some other) : target ≠ descriptor := by
  rintro rfl
  rw [adds.fresh] at held
  cases held

theorem Adds.files (adds : Adds st st' descriptor file) {target : Nat}
    (held : st.referent target = some other) : st'.referent target = some other := by
  rw [adds.others, if_neg (adds.apart held)]
  exact held

/-- What was duplicated is put back to its place, and the duplicate closed. -/
theorem referent_restore {source : Nat} (held : st.referent source = some file)
    (held' : st.referent target = some other) (apart : source ≠ target) (descriptor : Nat) :
    ((st.dup2 source target).close source).referent descriptor =
      if descriptor = source then none
      else if descriptor = target then some file else st.referent descriptor := by
  have still : (st.dup2 source target).referent source = some file := by
    rw [referent_dup2 held', if_neg apart]
    exact held
  rw [referent_close still, referent_dup2 held', held]

/-- The stream of the redirection is closed, and with it its descriptor. -/
theorem referent_closeOutput
    (held : ∀ descriptor, st.commandOutput = some descriptor → st.referent descriptor = some file)
    (descriptor : Nat) : st.closeOutput.referent descriptor =
      if st.commandOutput = some descriptor then none else st.referent descriptor := by
  rw [State.closeOutput]
  cases output : st.commandOutput with
  | none => rfl
  | some opened =>
    have closed := referent_close (held opened output) descriptor
    simp only [Option.some.injEq, @eq_comm _ opened]
    exact closed

theorem commandOutput_closeOutput (st : State) : st.closeOutput.commandOutput = none := by
  rw [State.closeOutput]
  cases output : st.commandOutput with
  | none => exact output
  | some opened => rfl

/-- A file that opens gets a descriptor of its own; otherwise nothing but the stream changes. -/
theorem openOutput_cases (world : World) (operator : Operator) (name : Option Line) (st : State) :
    (∃ descriptor file, (st.openOutput world operator name).commandOutput = some descriptor ∧
      Adds st (st.openOutput world operator name) descriptor file) ∨
    ((st.openOutput world operator name).commandOutput = none ∧
      (st.openOutput world operator name).descriptors = st.descriptors) := by
  cases name with
  | none => exact .inr ⟨rfl, rfl⟩
  | some name =>
    rw [State.openOutput]
    split
    · have adds := allocate_adds st (.opened name operator)
      exact .inl ⟨_, _, rfl, adds.fresh, adds.others⟩
    · exact .inr ⟨rfl, rfl⟩

end Files

section Commands

variable {world : World} {again : Exec} {st st' middle : State} {place : Place} {line : Line}
  {command : Line} {argv : List Line} {value : Int} {ret : Int × Int} {operator : Operator}

/-- A run that returns retains what is open. -/
def Returning (again : Exec) : Prop :=
  ∀ place st value st', Standard st → again place st = .ok (value, st') → Retains st st'

/-- A built-in command runs an entry again, or leaves the descriptors alone. -/
theorem execBuildin_cases
    (returns : execBuildin world again command argv st = .ok (value, st')) :
    (∃ idx, reexecute again idx st = .ok (value, st')) ∨ Undisturbed st st' := by
  have alone : ∀ {given : Int} {after : State},
      (Except.ok (given, after) : Except Stop (Int × State)) = .ok (value, st') →
      after.descriptors = st.descriptors → after.commandOutput = st.commandOutput →
      (∃ idx, reexecute again idx st = .ok (value, st')) ∨ Undisturbed st st' := by
    intro given after same descriptors output
    obtain ⟨_, rfl⟩ := Prod.mk.inj (Except.ok.inj same)
    exact .inr ⟨descriptors, output⟩
  cases argv with
  | nil => exact alone returns rfl rfl
  | cons name arguments =>
    rw [execBuildin] at returns
    -- The cases are the names, in the order of the source.
    split at returns
    · cases arguments with
      | nil => exact alone returns rfl rfl
      | cons directory arguments =>
        rw [handleCdCommand] at returns
        split at returns
        · exact alone returns rfl rfl
        · exact alone returns rfl rfl
    · split at returns
      · exact alone returns rfl rfl
      · split at returns
        · rw [handleCallNumCommand] at returns
          split at returns
          · exact alone returns rfl rfl
          · dsimp only at returns
            split at returns
            · exact alone returns rfl rfl
            · exact .inl ⟨_, returns⟩
        · split at returns
          · rw [handleLatestSimilarCommand] at returns
            split at returns
            · exact .inl ⟨_, returns⟩
            · split at returns
              · exact .inl ⟨_, returns⟩
              · exact alone returns rfl rfl
          · split at returns
            · cases returns
            · split at returns
              · exact alone returns rfl rfl
              · exact alone returns rfl rfl

theorem reexecute_retains {idx : Nat} (returning : Returning again) (standard : Standard st)
    (returns : reexecute again idx st = .ok (value, st')) : Retains st st' := by
  rw [reexecute] at returns
  obtain ⟨line, _, rest⟩ := bind_eq_ok.mp returns
  obtain ⟨⟨given, after⟩, ran, same⟩ := bind_eq_ok.mp rest
  obtain ⟨_, rfl⟩ := Prod.mk.inj (Except.ok.inj same)
  have kept := returning (.entry idx) (st.note (.command line)) given after
    ⟨standard.input, standard.output⟩ ran
  exact ⟨kept.files, kept.output⟩

theorem execBuildin_retains (returning : Returning again) (standard : Standard st)
    (returns : execBuildin world again command argv st = .ok (value, st')) : Retains st st' := by
  rcases execBuildin_cases returns with ⟨idx, entry⟩ | undisturbed
  · exact reexecute_retains returning standard entry
  · exact undisturbed.retains

theorem makeFork_undisturbed (returns : makeFork world argv st = .ok (value, st')) :
    Undisturbed st st' := by
  rw [makeFork] at returns
  dsimp only at returns
  split at returns
  · cases returns
  · unfold runParent at returns
    split at returns
    · obtain ⟨_, rfl⟩ := Prod.mk.inj (Except.ok.inj returns)
      exact ⟨rfl, rfl⟩
    · -- Of the ways to end, only two let the shell go on.
      split at returns
      · obtain ⟨_, rfl⟩ := Prod.mk.inj (Except.ok.inj returns)
        exact ⟨rfl, rfl⟩
      · obtain ⟨_, rfl⟩ := Prod.mk.inj (Except.ok.inj returns)
        exact ⟨rfl, rfl⟩
      · cases returns
      · cases returns
      · cases returns

theorem started_undisturbed (st : State) (command : Line) (place : Place) :
    Undisturbed st (st.started command place) := by
  cases place <;> exact ⟨rfl, rfl⟩

theorem runSimple_retains (returning : Returning again) (standard : Standard st)
    (returns : runSimple world again place st = .ok (ret, st')) : Retains st st' := by
  obtain ⟨command, held⟩ := held_of_runSimple returns
  have begun := (started_undisturbed st command place).retains
  have standard' := begun.standard standard
  rcases (@runSimple_eq_ok _ _ st st' command place ret.1 ret.2 held).mp returns with
    ⟨_, _, buildin⟩ | ⟨_, middle, buildin, forked⟩
  · exact begun.trans (execBuildin_retains returning standard' buildin)
  · exact begun.trans ((execBuildin_retains returning standard' buildin).trans
      (makeFork_undisturbed forked).retains)

/-- The end of `command_exec` sets the parts of the line to `NULL`. -/
theorem finish_undisturbed {ended : Int} (returns : finish place value st = .ok (ended, st')) :
    Undisturbed st st' ∧ st'.firstCommand = none ∧ st'.secondCommand = none := by
  rw [finish] at returns
  obtain ⟨line, _, same⟩ := bind_eq_ok.mp returns
  obtain ⟨_, rfl⟩ := Prod.mk.inj (Except.ok.inj same)
  exact ⟨⟨rfl, rfl⟩, rfl, rfl⟩

/-- What was open is open for the same files, the stream is closed, and some descriptor is new. -/
structure Leaks (st st' : State) : Prop where
  files : ∀ descriptor file, st.referent descriptor = some file → st'.referent descriptor = some file
  output : st'.commandOutput = none
  leaked : ∃ descriptor, st.referent descriptor = none ∧ st'.referent descriptor ≠ none

theorem Leaks.congr {last : State} (leaks : Leaks st st') (same : Undisturbed st' last) :
    Leaks st last := by
  have referents : ∀ descriptor, last.referent descriptor = st'.referent descriptor := by
    intro descriptor
    rw [State.referent, same.descriptors]
    rfl
  obtain ⟨files, output, descriptor, fresh, leaked⟩ := leaks
  refine ⟨fun descriptor file held => ?_, same.output.trans output, descriptor, fresh, ?_⟩
  · rw [referents]
    exact files descriptor file held
  · rw [referents]
    exact leaked

/-- Two descriptors have been duplicated: the standard output, and then the standard input. -/
structure Duplicated (st st' : State) (getStdout getStdin : Nat) (output input : File) : Prop where
  files : ∀ descriptor file, st.referent descriptor = some file → st'.referent descriptor = some file
  held : st.referent 1 = some output
  held' : st.referent 0 = some input
  fresh : st.referent getStdout = none
  fresh' : st.referent getStdin = none
  apart : getStdout ≠ getStdin
  stdout : st'.referent getStdout = some output
  stdin : st'.referent getStdin = some input

theorem prepared_duplicated (standard : Standard st) (second : Line) :
    ∃ output input,
      Duplicated st (st.prepared second) (st.dup 1).1 ((st.dup 1).2.dup 0).1 output input := by
  obtain ⟨⟨input, held'⟩, ⟨output, held⟩⟩ := standard
  have one := dup_adds held
  have two := dup_adds (one.files held')
  have adds : Adds (st.dup 1).2 (st.prepared second) ((st.dup 1).2.dup 0).1 input :=
    ⟨two.fresh, two.others⟩
  refine ⟨output, input, fun descriptor file held => adds.files (one.files held), held, held',
    one.fresh, ?_, two.apart one.added, adds.files one.added, adds.added⟩
  -- The second duplicate was not open before the first one either.
  cases before : st.referent ((st.dup 1).2.dup 0).1 with
  | none => rfl
  | some file => exact absurd rfl (two.apart (one.files before))

variable {getStdout getStdin descriptor : Nat} {output input file : File} {prepared before : State}

/-- Where one of two duplicates is put back to its place, the other one is left. -/
theorem restored_leaks {source target left : Nat} {other there : File}
    (fresh : st.referent source = none) (fresh' : st.referent left = none) (apart : left ≠ source)
    (held : st.referent target = some file)
    (kept : ∀ descriptor other, descriptor ≠ target → st.referent descriptor = some other →
      middle.referent descriptor = some other)
    (duplicate : middle.referent source = some file) (duplicate' : middle.referent left = some other)
    (target_held : middle.referent target = some there) (output : middle.commandOutput = none) :
    Leaks st ((middle.dup2 source target).close source) := by
  have distinct : ∀ {descriptor : Nat} {other : File}, st.referent descriptor = some other →
      ∀ {closed : Nat}, st.referent closed = none → closed ≠ descriptor := by
    rintro descriptor other held closed fresh rfl
    rw [fresh] at held
    cases held
  have restored := referent_restore duplicate target_held (distinct held fresh)
  refine ⟨fun descriptor file' held' => ?_, output, left, fresh', ?_⟩
  · rw [restored, if_neg (Ne.symm (distinct held' fresh))]
    split
    · -- The descriptor that is restored refers to what it did at first.
      rename_i same
      rw [same, held] at held'
      exact held'
    · rename_i different
      exact kept descriptor file' different held'
  · rw [restored, if_neg apart, if_neg (distinct held fresh'), duplicate']
    exact Option.some_ne_none _

/-- Behind `>` and `>>`, the duplicate of the standard input is still open. -/
theorem write_leaks (duplicated : Duplicated st prepared getStdout getStdin output input)
    (opened : Adds prepared before descriptor file)
    (stream : before.commandOutput = some descriptor) (retains : Retains before middle) :
    Leaks st ((middle.closeOutput.dup2 getStdout 1).close getStdout) := by
  have closed := @referent_closeOutput middle file (fun other there => by
    rcases retains.output with same | none
    · rw [same, stream] at there
      obtain rfl := Option.some.inj there
      exact retains.files _ _ opened.added
    · rw [none] at there
      cases there)
  -- Everything that was open before the stream is still open for the same file.
  have kept : ∀ {other : Nat} {there : File}, prepared.referent other = some there →
      middle.closeOutput.referent other = some there := by
    intro other there held
    rw [closed, if_neg]
    · exact retains.files _ _ (opened.files held)
    · intro same
      rcases retains.output with unchanged | none
      · rw [unchanged, stream] at same
        exact opened.apart held (Option.some.inj same).symm
      · rw [none] at same
        cases same
  exact restored_leaks duplicated.fresh duplicated.fresh' (Ne.symm duplicated.apart) duplicated.held
    (fun other there _ held => kept (duplicated.files other there held)) (kept duplicated.stdout)
    (kept duplicated.stdin) (kept (duplicated.files 1 output duplicated.held))
    (commandOutput_closeOutput middle)

/-- In front of the command, `<` has put its file in the place of the standard input. -/
theorem read_begun (duplicated : Duplicated st prepared getStdout getStdin output input)
    (opened : Adds prepared before descriptor file)
    (stream : before.commandOutput = some descriptor) :
    (before.dup2 descriptor 0).closeOutput.referent 0 = some file ∧
      ∀ other there, other ≠ 0 → prepared.referent other = some there →
        (before.dup2 descriptor 0).closeOutput.referent other = some there := by
  have standard := duplicated.files 0 input duplicated.held'
  have placed := referent_dup2 (opened.files standard) descriptor
  have closed := @referent_closeOutput (before.dup2 descriptor 0) file (fun other there => by
    obtain rfl := Option.some.inj (stream.symm.trans there)
    rw [placed, if_neg (Ne.symm (opened.apart standard))]
    exact opened.added)
  -- The descriptor that is closed is the one of the file, and no other.
  have elsewhere : ∀ {other : Nat} {there : File}, prepared.referent other = some there →
      (before.dup2 descriptor 0).commandOutput ≠ some other := by
    intro other there held same
    exact opened.apart held (Option.some.inj (stream.symm.trans same)).symm
  constructor
  · rw [closed, if_neg (elsewhere standard), placed, if_pos rfl]
    exact opened.added
  · intro other there different held
    rw [closed, if_neg (elsewhere held), placed, if_neg different]
    exact opened.files held

/-- Behind `<`, the duplicate of the standard output is still open. -/
theorem read_leaks (duplicated : Duplicated st prepared getStdout getStdin output input)
    (opened : Adds prepared before descriptor file)
    (stream : before.commandOutput = some descriptor)
    (retains : Retains (before.dup2 descriptor 0).closeOutput middle) :
    Leaks st ((middle.dup2 getStdin 0).close getStdin) := by
  obtain ⟨replaced, others⟩ := read_begun duplicated opened stream
  have kept : ∀ other there, other ≠ 0 → prepared.referent other = some there →
      middle.referent other = some there :=
    fun other there different held => retains.files _ _ (others other there different held)
  have ended : middle.commandOutput = none := by
    rcases retains.output with same | none
    · rw [same]
      exact commandOutput_closeOutput _
    · exact none
  -- The duplicates got descriptors that were not in use, so neither of them is the standard input.
  have distinct : ∀ {closed : Nat}, st.referent closed = none → closed ≠ 0 := by
    rintro closed fresh rfl
    rw [duplicated.held'] at fresh
    cases fresh
  exact restored_leaks duplicated.fresh' duplicated.fresh duplicated.apart duplicated.held'
    (fun other there different held => kept other there different (duplicated.files _ _ held))
    (kept _ _ (distinct duplicated.fresh') duplicated.stdin)
    (kept _ _ (distinct duplicated.fresh) duplicated.stdout)
    (retains.files _ _ replaced) ended

/-- A file that does not open leaves both duplicates. -/
theorem closed_leaks (duplicated : Duplicated st prepared getStdout getStdin output input)
    (descriptors : before.descriptors = prepared.descriptors)
    (stream : before.commandOutput = none) : Leaks st before := by
  have same : ∀ other, before.referent other = prepared.referent other := by
    intro other
    rw [State.referent, descriptors]
    rfl
  refine ⟨fun other there held => ?_, stream, getStdin, duplicated.fresh', ?_⟩
  · rw [same]
    exact duplicated.files other there held
  · rw [same, duplicated.stdin]
    exact Option.some_ne_none _

/-- Every redirection leaves a descriptor open. -/
theorem redirect_leaks {second : Line} (returning : Returning again) (standard : Standard st)
    (held : st.secondCommand = some second)
    (returns : redirect world again place operator st = .ok (value, st')) : Leaks st st' := by
  obtain ⟨output, input, duplicated⟩ := prepared_duplicated standard second
  rw [redirect_eq held] at returns
  -- One of the two duplicates stays open behind `<`, behind `>`, and where the file does not open.
  rcases openOutput_cases world operator (words second).head? (st.prepared second) with
    ⟨descriptor, file, stream, opened⟩ | ⟨stream, descriptors⟩
  · rw [stream] at returns
    dsimp only at returns
    split at returns
    · obtain ⟨result, ran, last⟩ := bind_eq_ok.mp returns
      obtain ⟨replaced, others⟩ := read_begun duplicated opened stream
      have apart : (1 : Nat) ≠ 0 := by decide
      have retains := runSimple_retains returning ⟨⟨_, replaced⟩,
        ⟨_, others 1 output apart (duplicated.files 1 output duplicated.held)⟩⟩ ran
      have leaks := read_leaks duplicated opened stream retains
      have ended := (finish_undisturbed last).1
      exact leaks.congr ⟨ended.descriptors, ended.output⟩
    · obtain ⟨result, ran, last⟩ := bind_eq_ok.mp returns
      have retains := runSimple_retains returning
        ⟨⟨input, opened.files (duplicated.files 0 input duplicated.held')⟩,
          ⟨output, opened.files (duplicated.files 1 output duplicated.held)⟩⟩ ran
      have leaks := write_leaks duplicated opened stream retains
      have ended := (finish_undisturbed last).1
      exact leaks.congr ⟨ended.descriptors, ended.output⟩
  · rw [stream] at returns
    obtain ⟨_, rfl⟩ := Prod.mk.inj (Except.ok.inj returns)
    have leaks := closed_leaks duplicated descriptors stream
    exact leaks.congr ⟨rfl, rfl⟩

theorem Leaks.retains (leaks : Leaks st st') : Retains st st' := ⟨leaks.files, .inr leaks.output⟩

/-- The end of a line whose commands retain what is open. -/
theorem finish_retains {ended : Int} (retains : Retains st middle)
    (returns : finish place value middle = .ok (ended, st')) : Retains st st' :=
  retains.trans (finish_undisturbed returns).1.retains

theorem commandFlag_retains {flag : Option Operator} {second : Line} (returning : Returning again)
    (standard : Standard st) (held : ∀ operator, flag = some operator → st.secondCommand = some second)
    (returns : commandFlag world again place flag st = .ok (value, st')) : Retains st st' := by
  have redirected : ∀ operator, flag = some operator →
      redirect world again place operator st = .ok (value, st') → Retains st st' :=
    fun operator same done => (redirect_leaks returning standard (held operator same) done).retains
  -- The other branches are one or two simple commands.
  cases flag with
  | none =>
    obtain ⟨result, ran, last⟩ := bind_eq_ok.mp returns
    exact finish_retains (runSimple_retains returning standard ran) last
  | some operator =>
    cases operator with
    | and | or =>
      obtain ⟨result, ran, rest⟩ := bind_eq_ok.mp returns
      have one := runSimple_retains returning standard ran
      dsimp only at rest
      split at rest
      · obtain ⟨result', ran', last⟩ := bind_eq_ok.mp rest
        exact finish_retains (one.trans (runSimple_retains returning (one.standard standard) ran')) last
      · exact finish_retains one rest
    | sequence =>
      obtain ⟨result, ran, rest⟩ := bind_eq_ok.mp returns
      obtain ⟨result', ran', last⟩ := bind_eq_ok.mp rest
      have one := runSimple_retains returning standard ran
      exact finish_retains (one.trans (runSimple_retains returning (one.standard standard) ran')) last
    | write => exact redirected .write rfl returns
    | append => exact redirected .append rfl returns
    | read => exact redirected .read rfl returns

/-- The parts of a line are stored without any change to the descriptors. -/
theorem split_undisturbed (st : State) (line : Line) (position : Nat) :
    Undisturbed st (st.split line position) := ⟨rfl, rfl⟩

/-- Whatever a line does, what was open before it is open for the same files behind it. -/
theorem commandExec_retains (world : World) (fuel : Nat) : Returning (commandExec world fuel) := by
  induction fuel with
  | zero =>
    intro place st value st' _ returns
    cases returns
  | succ fuel ih =>
    intro place st value st' standard returns
    obtain ⟨line, read, _⟩ := bind_eq_ok.mp (show commandBody world _ place st = _ from returns)
    rcases commandBody_cases (get_eq_ok.mp read) returns with
      ⟨_, rest⟩ | ⟨operator, position, _, rest⟩
    · exact @commandFlag_retains _ _ _ _ _ _ _ [] ih standard (by simp) rest
    · have begun := (split_undisturbed st line position).retains
      exact begun.trans (commandFlag_retains ih (begun.standard standard) (fun _ _ => rfl) rest)

/-- What a redirection is to leave behind: the files, the descriptors and the globals as they were. -/
structure Undone (st st' : State) : Prop where
  input : st'.referent 0 = st.referent 0
  output : st'.referent 1 = st.referent 1
  descriptors : ∀ descriptor, st'.referent descriptor = none ↔ st.referent descriptor = none
  first : st'.firstCommand = none
  second : st'.secondCommand = none
  stream : st'.commandOutput = none

/-- A line with a redirection that returns leaves a descriptor open. -/
theorem redirection_leaks {fuel position : Nat} (standard : Standard st)
    (held : st.string place = some line) (found : findOperator line = some (operator, position))
    (redirects : operator.Redirects)
    (returns : commandExec world fuel place st = .ok (value, st')) : Leaks st st' := by
  cases fuel with
  | zero => cases returns
  | succ fuel =>
    rcases commandBody_cases held returns with ⟨nothing, _⟩ | ⟨operator', position', found', rest⟩
    · rw [nothing] at found
      cases found
    · rw [found] at found'
      obtain ⟨rfl, rfl⟩ := Prod.mk.inj (Option.some.inj found')
      have redirection : redirect world (commandExec world fuel) place operator
          (st.split line position) = .ok (value, st') := by
        cases operator <;> first | exact redirects.elim | exact rest
      have opened : Standard (st.split line position) := ⟨standard.input, standard.output⟩
      have leaks := redirect_leaks (commandExec_retains world fuel) opened rfl redirection
      exact ⟨leaks.files, leaks.output, leaks.leaked⟩

/-- No redirection is undone: the set of open descriptors always grows. -/
theorem redirection_never_undone {fuel position : Nat} (standard : Standard st)
    (held : st.string place = some line) (found : findOperator line = some (operator, position))
    (redirects : operator.Redirects)
    (returns : commandExec world fuel place st = .ok (value, st')) : ¬ Undone st st' := by
  intro undone
  obtain ⟨descriptor, fresh, leaked⟩ :=
    (redirection_leaks standard held found redirects returns).leaked
  exact leaked ((undone.descriptors descriptor).mpr fresh)

end Commands

section Samples

/-- Behind `ls > f`, where `f` does not open, two more descriptors are open. -/
def sampleLeft : State :=
  { sampleState ['l', 's', ' ', '>', ' ', 'f'] with
    firstCommand := some ['l', 's', ' ']
    secondCommand := some ['f']
    descriptors := [some (.inherited 0), some (.inherited 1), some (.inherited 2),
      some (.inherited 1), some (.inherited 0)]
    log := [.redirectionFileError] }

theorem redirection_never_undone_ls :
    ¬ Undone (sampleState ['l', 's', ' ', '>', ' ', 'f']) sampleLeft :=
  @redirection_never_undone sampleWorld _ _ .buffer ['l', 's', ' ', '>', ' ', 'f'] 1 .write 1 3
    ⟨⟨_, rfl⟩, ⟨_, rfl⟩⟩ rfl (by decide) trivial rfl

/-- A redirection whose file does not open leaves the parts of its line, too. -/
theorem failed_redirection_leaves_parts : ¬ ∀ (world : World) (fuel : Nat) (place : Place)
    (line : Line) (operator : Operator) (position : Nat) (st st' : State) (value : Int),
    Standard st → st.string place = some line →
    findOperator line = some (operator, position) → operator.Redirects →
    commandExec world fuel place st = .ok (value, st') → Undone st st' := by
  intro claim
  have undone := claim sampleWorld 1 .buffer ['l', 's', ' ', '>', ' ', 'f'] .write 3
    (sampleState ['l', 's', ' ', '>', ' ', 'f']) sampleLeft 1 ⟨⟨_, rfl⟩, ⟨_, rfl⟩⟩ rfl (by decide)
    trivial rfl
  have closed := (undone.descriptors 3).mpr (by decide)
  exact absurd closed (by decide)

end Samples

end SystemProgramming.Shell
