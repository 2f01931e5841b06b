import SystemProgramming.FileServer.Store

/-! Paths: what the server hands to the file system, and what it denotes there. -/

namespace SystemProgramming.FileServer

open Foundations

variable {library : Library} {dirTemplate : Path} {before after final st : Server library}
  {event : Event} {filename other : Name} {cwd : List Name} {calls : List FileCall}
  {outcome : Outcome} {input : Input} {info : InfoClient} {fd : Nat}

section Resolution

/-- The pieces of a path between its slashes. -/
def components (path : Path) : List Name := path.splitOn slash

/--
Following one component from a directory, which is given by the names on the way to it from the root.
-/
def follow (directory : List Name) (component : Name) : List Name :=
  if component = [] ∨ component = ascii ['.'] then directory
  else if component = ascii ['.', '.'] then directory.dropLast
  else directory ++ [component]

/-- What a path denotes from a working directory, where no link is symbolic. -/
def resolve (cwd : List Name) (path : Path) : List Name :=
  (components path).foldl follow (if path.head? = some slash then [] else cwd)

/-- What the path of a name denotes is found by following the name from the directory. -/
theorem resolve_getFilepath (named : dirTemplate ≠ []) :
    resolve cwd (getFilepath dirTemplate filename) =
      (components filename).foldl follow (resolve cwd dirTemplate) := by
  -- The path is absolute exactly if the directory is.
  have front : (getFilepath dirTemplate filename).head? = dirTemplate.head? :=
    List.head?_append_of_ne_nil _ named
  -- The slash between them separates the components of the directory from those of the name.
  have pieces : components (getFilepath dirTemplate filename) =
      components dirTemplate ++ components filename :=
    List.splitOn_append_cons_self _ _
  rw [resolve, front, pieces, List.foldl_append]
  rfl

/-- A plain name is one component, and denotes an entry of the directory that it is followed from. -/
theorem foldl_follow_of_plain (plain : Plain filename) (directory : List Name) :
    (components filename).foldl follow directory = directory ++ [filename] := by
  -- Without a slash there is one component, which is neither empty nor made of dots.
  rw [components, List.splitOn_eq_singleton plain.slash]
  show follow directory filename = _
  rw [follow, if_neg (not_or.mpr ⟨plain.nonempty, plain.dot⟩), if_neg plain.dots]

/-- Different plain names denote different entries. -/
theorem resolve_ne_of_plain (named : dirTemplate ≠ []) (plain : Plain filename)
    (also : Plain other) (different : filename ≠ other) :
    resolve cwd (getFilepath dirTemplate filename) ≠ resolve cwd (getFilepath dirTemplate other) := by
  -- Both paths denote entries of one directory, under the names themselves.
  rw [resolve_getFilepath named, resolve_getFilepath named, foldl_follow_of_plain plain,
    foldl_follow_of_plain also]
  intro same
  exact different (List.singleton_inj.mp (List.append_cancel_left same))

end Resolution

section Turns

/--
Everything that an event can do to the connections, with the calls that hand a path to the file
system.
-/
inductive Turn (dirTemplate : Path) (st : Server library) (event : Event) (after : Server library)
    (calls : List FileCall) : Prop
  | accepted (fd : Nat) (opened : event = .accept fd) (silent : calls = [])
      (next : after.clientDictionary =
        Function.update st.clientDictionary fd (some ⟨0, .none, []⟩))
  | named (fd : Nat) (input : Input) (info : InfoClient) (state : Int) (verb : Verb)
      (filename : Name) (rest : List UInt8) (ready : event = .ready fd input)
      (found : st.clientDictionary fd = some info) (header : info.state = 0)
      (request : input.request = some (verb, filename, rest))
      (paths : ∀ call ∈ calls, verb = .put ∧ call.path = getFilepath dirTemplate filename)
      (next : after.clientDictionary =
        Function.update st.clientDictionary fd (some ⟨state, some verb, filename⟩))
  | ended (fd : Nat) (input : Input) (info : InfoClient) (ready : event = .ready fd input)
      (found : st.clientDictionary fd = some info)
      (paths : ∀ call ∈ calls, info.state = 1 ∧ (info.method = some .get ∨
        info.method = some .delete) ∧ call.path = getFilepath dirTemplate info.filename)
      (next : ∀ info, after.clientDictionary fd = some info → info.state ≠ 1)
      (others : ∀ other, other ≠ fd → after.clientDictionary other = st.clientDictionary other)

/-- A `PUT` uses the path of its name only, and leaves the connections alone. -/
theorem put_paths {fragments : List Fragment} {stream : List UInt8} {accepted : Bool}
    (done : put dirTemplate before filename input fragments stream = some (after, accepted, calls)) :
    after.clientDictionary = before.clientDictionary ∧
      ∀ call ∈ calls, call.path = getFilepath dirTemplate filename := by
  -- The calls are `access`, `fopen` and maybe `unlink`, all with one path.
  simp only [put] at done
  split at done
  · cases done
  · split at done
    · -- The transfer was not what was declared, and the file is unlinked.
      cases done
      exact ⟨rfl, by simp [FileCall.path]⟩
    · cases done
      exact ⟨rfl, by simp [FileCall.path]⟩

/-- An event that leaves a connection in another state than 1 uses no path of a header. -/
theorem Turn.setClient {state : Int} (found : before.clientDictionary fd = some info)
    (other : state ≠ 1) (paths : ∀ call ∈ calls, info.state = 1 ∧ (info.method = some .get ∨
      info.method = some .delete) ∧ call.path = getFilepath dirTemplate info.filename)
    (same : st.clientDictionary = before.clientDictionary) :
    Turn dirTemplate before (.ready fd input) (st.setClient fd { info with state := state })
      calls := by
  refine .ended fd input info rfl found paths (fun next stays => ?_) (fun name apart => ?_)
  · rw [Server.setClient_same] at stays
    cases stays
    exact other
  · show Function.update st.clientDictionary fd _ name = _
    rw [Function.update_of_ne apart, same]

/-- An event that closes a connection. -/
theorem Turn.close (found : before.clientDictionary fd = some info)
    (paths : ∀ call ∈ calls, info.state = 1 ∧ (info.method = some .get ∨
      info.method = some .delete) ∧ call.path = getFilepath dirTemplate info.filename)
    (same : st.clientDictionary = before.clientDictionary) :
    Turn dirTemplate before (.ready fd input) (st.close fd) calls := by
  -- The connection is gone, and the others are as before.
  refine .ended fd input info rfl found paths (fun next stays => ?_) (fun name apart => ?_)
  · rw [Server.close_same] at stays
    cases stays
  · show Function.update st.clientDictionary fd _ name = _
    rw [Function.update_of_ne apart, same]

/-- What a header does to its connection. -/
theorem turn_of_processHeader (found : before.clientDictionary fd = some info)
    (header : info.state = 0)
    (done : processHeader dirTemplate before fd info input = some (after, outcome)) :
    Turn dirTemplate before (.ready fd input) after outcome.calls := by
  simp only [processHeader] at done
  split at done
  · cases done
  -- The state becomes -1, before any path is used.
  next rejected =>
    cases done
    exact .setClient found (by decide) (by simp) rfl
  next line fragments stream read =>
    simp only [parseRequest] at done
    split at done
    -- The verb is none of the four, and the state becomes -1.
    next unknown =>
      cases done
      exact .setClient found (by decide) (by simp) rfl
    -- A `PUT` uses its path at once.
    next filename parsed =>
      have request : input.request = some (.put, filename, stream) := by
        simp [Input.request, read, parsed]
      split at done
      · cases done
      next stored accepted calls carried =>
        obtain ⟨same, paths⟩ := put_paths carried
        cases done
        refine .named fd input info (if accepted then 1 else -2) .put filename stream rfl found
          header request (fun call member => ⟨rfl, paths call member⟩) ?_
        show Function.update stored.clientDictionary fd _ = _
        rw [same]
    -- The other requests only keep their name.
    next verb filename parsed other =>
      have request : input.request = some (verb, filename, stream) := by
        simp [Input.request, read, other]
      cases done
      exact .named fd input info 1 verb filename stream rfl found header request (by simp) rfl

/-- What carrying out a request does to its connection. -/
theorem processMethod_paths {writes : List Fragment} {done : Bool}
    (carried : processMethod dirTemplate before info writes = some (after, done, outcome)) :
    after.clientDictionary = before.clientDictionary ∧
      ∀ call ∈ outcome.calls, (info.method = some .get ∨ info.method = some .delete) ∧
        call.path = getFilepath dirTemplate info.filename := by
  simp only [processMethod] at carried
  split at carried
  · cases carried
    exact ⟨rfl, by simp⟩
  · cases carried
    exact ⟨rfl, by simp⟩
  next method =>
    -- A `GET` opens the file, whether it is there or not.
    split at carried
    · cases carried
    next got =>
      cases carried
      refine ⟨rfl, fun call member => ⟨.inl method, ?_⟩⟩
      simp only [processGet] at got
      split at got
      · cases got
        rw [List.mem_singleton.mp member]
        rfl
      · -- The file is there, and its size decides whether there is a result.
        split at got
        · cases got
        · split at got
          · cases got
          · cases got
            rw [List.mem_singleton.mp member]
            rfl
  next method =>
    -- A `DELETE` looks for the file, and unlinks it if it is there.
    simp only [processDelete] at carried
    split at carried
    · cases carried
      exact ⟨rfl, by simp [FileCall.path, method]⟩
    · split at carried
      · cases carried
        exact ⟨rfl, by simp [FileCall.path, method]⟩
      · cases carried
        exact ⟨rfl, by simp [FileCall.path, method]⟩
  · cases carried
    exact ⟨rfl, by simp⟩

/-- What an event does to the connections is one of the turns. -/
theorem turn_of_runEpoll (done : runEpoll dirTemplate before event = some (after, outcome)) :
    Turn dirTemplate before event after outcome.calls := by
  cases event with
  | accept fd =>
    simp only [runEpoll] at done
    split at done
    · cases done
      exact .accepted fd rfl rfl rfl
    · cases done
  | ready fd input =>
    simp only [runEpoll] at done
    split at done
    · cases done
    next info found =>
      split at done
      -- State 0 waits for the header, state 1 for the request, and the others for an error.
      next header => exact turn_of_processHeader found header done
      next header =>
        split at done
        next parsed =>
          split at done
          · cases done
          next carried =>
            cases done
            obtain ⟨same, paths⟩ := processMethod_paths carried
            exact .close found (fun call member => ⟨parsed, paths call member⟩) same
          next carried =>
            cases done
            obtain ⟨same, paths⟩ := processMethod_paths carried
            exact .setClient found (by decide) (fun call member => ⟨parsed, paths call member⟩) same
        -- An error uses no path.
        next failed =>
          cases done
          exact .close found (by simp [processError]) rfl

end Turns

section Runs

variable {taken : Transition (Server library) Action}
  {trace : List (Transition (Server library) Action)}

/-- One event of the server, whatever the file system holds at any path when it starts. -/
def Serves (library : Library) (dirTemplate : Path) (before : Server library) (action : Action)
    (after : Server library) : Prop :=
  ∃ files, runEpoll dirTemplate { before with files := files } action.event =
    some (after, action.outcome)

/-- The step is a header on the connection, with this name. -/
def NamesFile (fd : Nat) (taken : Transition (Server library) Action) (filename : Name) : Prop :=
  ∃ input info verb rest, taken.action.event = .ready fd input ∧
    taken.before.clientDictionary fd = some info ∧ info.state = 0 ∧
    input.request = some (verb, filename, rest)

/-- The step opens the connection. -/
def Opens (fd : Nat) (taken : Transition (Server library) Action) : Prop :=
  taken.action.event = .accept fd

/-- The name that is kept for a request is the one in the header of its connection. -/
def Remembers (trace : List (Transition (Server library) Action)) (st : Server library) : Prop :=
  ∀ fd info, st.clientDictionary fd = some info → info.state = 1 →
    LastWritten (NamesFile fd) (Opens fd) trace info.filename

/-- An event with the files that the server has stored. -/
theorem Serves.of_executed {action : Action}
    (executed : runEpoll dirTemplate before action.event = some (after, action.outcome)) :
    Serves library dirTemplate before action after :=
  ⟨before.files, executed⟩

/-- A step that serves takes a turn. -/
theorem Serves.turn {action : Action} (serves : Serves library dirTemplate before action after) :
    Turn dirTemplate before action.event after action.outcome.calls := by
  obtain ⟨files, executed⟩ := serves
  -- The turns are about the connections, which do not depend on the files.
  cases turn_of_runEpoll executed with
  | accepted fd opened silent next => exact .accepted fd opened silent next
  | named fd input info state verb filename rest ready found header request paths next =>
    exact .named fd input info state verb filename rest ready found header request paths next
  | ended fd input info ready found paths next others =>
    exact .ended fd input info ready found paths next others

/-- A connection that a step leaves alone remembers what it did. -/
theorem Remembers.kept {action : Action} (remembers : Remembers trace before)
    (found : before.clientDictionary fd = some info) (parsed : info.state = 1)
    (other : action.event ≠ .accept fd) :
    LastWritten (NamesFile fd) (Opens fd) (trace ++ [⟨before, action, after⟩]) info.filename :=
  lastWritten_append_iff.mpr (.inr ⟨other, remembers fd info found parsed⟩)

/-- Every step keeps that names are those of headers. -/
theorem Remembers.step {action : Action} (remembers : Remembers trace before)
    (serves : Serves library dirTemplate before action after) :
    Remembers (trace ++ [⟨before, action, after⟩]) after := by
  intro fd info found parsed
  cases serves.turn with
  | accepted own opened silent next =>
    rw [next] at found
    by_cases same : fd = own
    · -- A new connection has not sent its header.
      subst same
      rw [Function.update_self] at found
      cases found
      cases parsed
    · rw [Function.update_of_ne same] at found
      refine remembers.kept found parsed fun again => ?_
      rw [opened] at again
      cases again
      exact same rfl
  -- The header has just named the file.
  | named own input old state verb filename rest ready known header request paths next =>
    rw [next] at found
    by_cases same : fd = own
    · subst same
      rw [Function.update_self] at found
      cases found
      exact lastWritten_append_iff.mpr (.inl ⟨input, old, verb, rest, ready, known, header, request⟩)
    · rw [Function.update_of_ne same] at found
      exact remembers.kept found parsed (by simp [ready])
  -- The connection is closed, or it waits for its error.
  | ended own input old ready known paths next others =>
    by_cases same : fd = own
    · subst same
      exact absurd parsed (next info found)
    · rw [others fd same] at found
      exact remembers.kept found parsed (by simp [ready])

/-- In every run, the name that is kept for a request is the one in the header of its connection. -/
theorem remembers_of_run
    (run : Run (Serves library dirTemplate) (start library) trace final) :
    Remembers trace final :=
  -- At first there are no connections.
  run.history (by simp [Remembers, start]) fun _ _ _ _ remembers serves => remembers.step serves

/-- The path of a call is that of a name which the header of its connection had. -/
theorem path_of_call {action : Action} {call : FileCall} (remembers : Remembers trace before)
    (serves : Serves library dirTemplate before action after)
    (member : call ∈ action.outcome.calls) :
    ∃ fd filename, LastWritten (NamesFile fd) (Opens fd) (trace ++ [⟨before, action, after⟩])
      filename ∧ call.path = getFilepath dirTemplate filename := by
  cases serves.turn with
  -- Opening a connection uses no path.
  | accepted fd opened silent next =>
    rw [silent] at member
    cases member
  | named fd input info state verb filename rest ready found header request paths next =>
    -- The name comes with this very event.
    exact ⟨fd, filename, lastWritten_append_iff.mpr (.inl ⟨input, info, verb, rest, ready, found,
      header, request⟩), (paths call member).2⟩
  | ended fd input info ready found paths next others =>
    -- The name was in the header, at an earlier event of the connection.
    obtain ⟨parsed, -, path⟩ := paths call member
    exact ⟨fd, info.filename, remembers.kept found parsed (by simp [ready]), path⟩

/--
In every run, with any headers and any files: each path that the server hands to the file system is
the directory, a slash, and the name from the header of the connection, as it was sent. It denotes
what is found by following that name from the directory: an entry of the directory if the name is
plain; and different plain names denote different entries.
-/
theorem paths_as_sent (named : dirTemplate ≠ [])
    (run : Run (Serves library dirTemplate) (start library) trace final) :
    (∀ earlier taken later, trace = earlier ++ taken :: later →
      ∀ call ∈ taken.action.outcome.calls, ∃ fd filename,
        LastWritten (NamesFile fd) (Opens fd) (earlier ++ [taken]) filename ∧
        call.path = getFilepath dirTemplate filename ∧
        ∀ cwd, resolve cwd call.path =
            (components filename).foldl follow (resolve cwd dirTemplate) ∧
          (Plain filename → resolve cwd call.path = resolve cwd dirTemplate ++ [filename])) ∧
    ∀ cwd filename other, Plain filename → Plain other → filename ≠ other →
      resolve cwd (getFilepath dirTemplate filename) ≠ resolve cwd (getFilepath dirTemplate other) := by
  refine ⟨fun earlier taken later whole call member => ?_, fun _ _ _ plain also different =>
    resolve_ne_of_plain named plain also different⟩
  subst whole
  -- The call belongs to one step, taken from a state that the run reaches.
  obtain ⟨reached, serves⟩ := run.cut
  obtain ⟨fd, filename, sent, path⟩ := path_of_call (remembers_of_run reached) serves member
  refine ⟨fd, filename, sent, path, fun cwd => ?_⟩
  rw [path, resolve_getFilepath named]
  exact ⟨rfl, fun plain => foldl_follow_of_plain plain _⟩

/-- A `PUT` of a name that leads out of the directory. -/
def climbingInput : Input where
  stale := []
  reads := []
  stream := requestBuff .put (ascii ['.', '.', '/', 'x']) ++ (littleEndian sizeBytes 1 ++ [120])
  writes := []

/-- A client sends the name `../x` over the first connection. -/
theorem climbing_run : ∃ earlier taken final,
    Run (Serves sampleLibrary sampleDir) (start sampleLibrary) (earlier ++ [taken]) final ∧
      taken.action.outcome.calls = [.access (getFilepath sampleDir (ascii ['.', '.', '/', 'x'])),
        .fopen (getFilepath sampleDir (ascii ['.', '.', '/', 'x'])) ['w', '+']] := by
  -- The header is a `PUT` like any other for the server.
  have stored := @runEpoll_stored sampleLibrary sampleDir
    ((start sampleLibrary).setClient 0 ⟨0, none, []⟩) (ascii ['.', '.', '/', 'x'])
    (littleEndian sizeBytes 1 ++ [120]) climbingInput ⟨0, none, []⟩ 0 rfl rfl List.not_mem_nil
    (by decide +kernel) (by decide)
  have opened : Serves sampleLibrary sampleDir (start sampleLibrary) ⟨.accept 0, ⟨[], []⟩⟩
      ((start sampleLibrary).setClient 0 ⟨0, none, []⟩) :=
    .of_executed (Step.accept rfl (inMemory_of_names rfl (by decide))).executed
  have asked : Serves sampleLibrary sampleDir ((start sampleLibrary).setClient 0 ⟨0, none, []⟩)
      ⟨.ready 0 climbingInput, _⟩ _ := .of_executed stored
  exact ⟨_, _, _, .next (.next .start opened) asked, rfl⟩

/-- What the names `../x`, `./x` and `x` denote from a directory. -/
theorem climbing_names (directory : List Name) :
    (components (ascii ['.', '.', '/', 'x'])).foldl follow directory =
        directory.dropLast ++ [ascii ['x']] ∧
      (components (ascii ['.', '/', 'x'])).foldl follow directory = directory ++ [ascii ['x']] ∧
      (components (ascii ['x'])).foldl follow directory = directory ++ [ascii ['x']] :=
  ⟨rfl, rfl, rfl⟩

/-- The name `../x` opens a file next to the directory for writing; `./x` and `x` are one file. -/
theorem climbs_out : ∃ earlier taken final,
    Run (Serves sampleLibrary sampleDir) (start sampleLibrary) (earlier ++ [taken]) final ∧
      ∃ path, FileCall.fopen path ['w', '+'] ∈ taken.action.outcome.calls ∧
        ∀ cwd, resolve cwd path = cwd ++ [ascii ['x']] ∧
          (∀ entry, resolve cwd path ≠ resolve cwd sampleDir ++ [entry]) ∧
          resolve cwd (getFilepath sampleDir (ascii ['.', '/', 'x'])) =
            resolve cwd (getFilepath sampleDir (ascii ['x'])) := by
  obtain ⟨earlier, taken, final, run, calls⟩ := climbing_run
  refine ⟨earlier, taken, final, run, getFilepath sampleDir (ascii ['.', '.', '/', 'x']), ?_,
    fun cwd => ?_⟩
  · rw [calls]
    exact List.mem_cons_of_mem _ List.mem_cons_self
  · -- From the directory, `..` leads back to where the server was started.
    have named : sampleDir ≠ [] := by decide
    have directory : resolve cwd sampleDir = cwd ++ [sampleDir] := rfl
    obtain ⟨up, here, plain⟩ := climbing_names (cwd ++ [sampleDir])
    rw [List.dropLast_concat] at up
    rw [resolve_getFilepath named, resolve_getFilepath named, resolve_getFilepath named, directory,
      up, here, plain]
    refine ⟨rfl, fun entry same => ?_, rfl⟩
    -- The file is not deeper than the directory itself.
    have lengths := congrArg List.length same
    simp only [List.length_append, List.length_singleton] at lengths
    omega

/-- The path of the name `../x` is the name as it was sent; the names `a` and `b` are two files. -/
theorem paths_as_sent_sample : ∃ earlier taken final,
    Run (Serves sampleLibrary sampleDir) (start sampleLibrary) (earlier ++ [taken]) final ∧
      taken.action.outcome.calls.length = 2 ∧
      (∀ call ∈ taken.action.outcome.calls, ∃ fd filename,
        LastWritten (NamesFile fd) (Opens fd) (earlier ++ [taken]) filename ∧
          call.path = getFilepath sampleDir filename) ∧
      resolve [] (getFilepath sampleDir [97]) ≠ resolve [] (getFilepath sampleDir [98]) := by
  obtain ⟨earlier, taken, final, run, calls⟩ := climbing_run
  obtain ⟨sent, different⟩ := paths_as_sent (by decide) run
  refine ⟨earlier, taken, final, run, by rw [calls]; rfl, fun call member => ?_,
    different [] [97] [98] (by decide) (by decide) (by decide)⟩
  obtain ⟨fd, filename, named, path, -⟩ := sent earlier taken [] rfl call member
  exact ⟨fd, filename, named, path⟩

end Runs

end SystemProgramming.FileServer
