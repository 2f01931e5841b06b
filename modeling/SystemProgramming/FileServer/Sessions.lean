import SystemProgramming.FileServer.Contents
import SystemProgramming.FileServer.Listing
import SystemProgramming.Foundations.Linearizable

/-!
Sessions: what the clients of the file server see is what they would see of a store that carries
out one request after the other.
-/

namespace SystemProgramming.FileServer

open Foundations

section Abstract

/-- What a client asks for; a file that is not as long as it is declared has no content. -/
inductive Operation where
  | put (filename : Name) (content : Option (List UInt8))
  | get (filename : Name)
  | delete (filename : Name)
  | list
  | malformed
  deriving DecidableEq, Repr

/-- How a request ends. -/
inductive Answer where
  | done
  | content (file : List UInt8)
  | names (names : List Name)
  | badRequest
  | badFileSize
  | noSuchFile
  deriving DecidableEq, Repr

/-- A store: its files by their names, and the names that it lists. -/
structure Store where
  contents : Name → Option (List UInt8)
  names : List Name

/-- The store with another file, or without one. -/
def Store.setContent (store : Store) (filename : Name) (content : Option (List UInt8)) : Store :=
  { store with contents := Function.update store.contents filename content }

/--
What the store does for a request. It does not keep the old file of a name whose new one is
refused, but it still lists the name.
-/
def Store.apply (store : Store) : Operation → Store × Answer
  | .put filename (some content) =>
    ({ store.setContent filename (some content) with
        names :=
          if (store.contents filename).isSome then store.names else store.names ++ [filename] },
      .done)
  | .put filename none => (store.setContent filename none, .badFileSize)
  | .get filename =>
    match store.contents filename with
    | some file => (store, .content file)
    | none => (store, .noSuchFile)
  | .delete filename =>
    match store.contents filename with
    | some _ =>
      ({ store.setContent filename none with names := store.names.erase filename }, .done)
    | none => (store, .noSuchFile)
  | .list => (store, .names store.names)
  | .malformed => (store, .badRequest)

/-- The bytes of an error. -/
abbrev errorReply : List UInt8 := ascii ['E', 'R', 'R', 'O', 'R', '\n']

/-- The bytes that follow a good reply and a size. -/
def sized (content : List UInt8) : List UInt8 :=
  okReply ++ (littleEndian sizeBytes content.length ++ content)

/-- The bytes that an answer is sent as. -/
def Answer.bytes (library : Library) : Answer → List UInt8
  | .done => okReply
  | .content file => sized file
  | .names listed => sized (listingPieces listed).flatten
  | .badRequest => errorReply ++ library.errBadRequest
  | .badFileSize => errorReply ++ library.errBadFileSize
  | .noSuchFile => errorReply ++ library.errNoSuchFile

/-- The store as an object that is empty at first. -/
def keyValueStore : AtomicObject Store Operation Answer where
  initial := ⟨fun _ => none, []⟩
  apply := Store.apply

/-- The announced bytes can be counted, with the five that a client asks for besides. -/
def Answer.Fits : Answer → Prop
  | .content file => file.length + 5 < sizeRange
  | .names listed => (listingPieces listed).flatten.length + 5 < sizeRange ∧
      ∀ filename ∈ listed, Plain filename
  | _ => True

end Abstract

variable {library : Library} {dirTemplate : Path}

section Ghosts

/-- What is asked for by what comes on a connection. -/
def Input.operation (input : Input) : Operation :=
  match input.request with
  | some (.put, filename, sent) =>
    .put filename (if SendsDeclared input.stale sent then some (sent.drop sizeBytes) else none)
  | some (.get, filename, _) => .get filename
  | some (.delete, filename, _) => .delete filename
  | some (.list, _, _) => .list
  | none => .malformed

/--
The sessions of a run, numbered as they were accepted: which one a descriptor belongs to, what was
sent in it, and what its client has seen.
-/
structure Sessions where
  count : Nat
  session : Nat → Nat
  sent : Nat → List UInt8
  history : List (Mark Nat Operation (List UInt8))

/-- Before the first connection. -/
def Sessions.start : Sessions := ⟨0, fun _ => 0, fun _ => [], []⟩

/--
What a client sees of an event of its connection: its request is read, or everything that was sent
to it is complete, as the connection is closed.
-/
def visible (taken : Transition (Server library) Action) (fd : Nat) (input : Input)
    (sent : List UInt8) : List (Moment Operation (List UInt8)) :=
  (if (taken.before.clientDictionary fd).map InfoClient.state = some 0 then
    [.call input.operation] else []) ++
  if taken.after.clientDictionary fd = none then [.answer sent] else []

/-- The sessions after one more event. -/
def Sessions.next (sessions : Sessions) (taken : Transition (Server library) Action) : Sessions :=
  match taken.action.event with
  | .accept fd =>
    { sessions with
      count := sessions.count + 1
      session := Function.update sessions.session fd sessions.count
      sent := Function.update sessions.sent fd [] }
  | .ready fd input =>
    let sent := sessions.sent fd ++ taken.action.outcome.sent
    { sessions with
      sent := Function.update sessions.sent fd sent
      history := sessions.history ++
        (visible taken fd input sent).map fun turn => ⟨sessions.session fd, turn⟩ }

end Ghosts

section Events

variable {before after st : Server library} {info : InfoClient} {input : Input} {fd : Nat}
  {outcome : Outcome} {filename other : Name} {store : Store} {writes : List Fragment}

/-- The bytes of the error in which a state of a connection ends. -/
def failureBytes (library : Library) (state : Int) : List UInt8 :=
  errorReply ++
    if state = -1 then library.errBadRequest
    else if state = -2 then library.errBadFileSize
    else if state = -3 then library.errNoSuchFile
    else []

/-- A header that holds no request is refused. -/
theorem runEpoll_malformed (found : before.clientDictionary fd = some info)
    (header : info.state = 0) (request : input.request = none)
    (done : runEpoll dirTemplate before (.ready fd input) = some (after, outcome)) :
    after = before.setClient fd { info with state := -1 } ∧ outcome = ⟨[], []⟩ := by
  simp only [runEpoll, found, header, if_true, processHeader] at done
  rw [Input.request] at request
  -- The loop leaves its buffer, or it finds no line, or it has read one.
  split at done
  · cases done
  · cases done
    exact ⟨rfl, rfl⟩
  next line fragments stream read =>
    -- The verb of the line is none of the four.
    rw [read] at request
    have unknown : parseHeader line = none := by simpa using request
    simp only [parseRequest, unknown] at done
    cases done
    exact ⟨rfl, rfl⟩

/-- A `PUT` that was accepted is answered when its connection is ready again. -/
theorem runEpoll_put (found : st.clientDictionary fd = some info) (parsed : info.state = 1)
    (method : info.method = some .put) (unbroken : Unbroken input.writes) :
    runEpoll dirTemplate st (.ready fd input) = some (st.close fd, ⟨[], okReply⟩) := by
  have header : ¬ info.state = 0 := by omega
  -- Without a failed write the whole reply is sent.
  obtain ⟨later, -, reply⟩ := @writeAllToSocket_eq input.writes okReply unbroken
  simp only [runEpoll, found, if_neg header, if_pos parsed, processMethod, method, reply]

/-- A `DELETE` of a listed file removes it, and the connection is closed. -/
theorem runEpoll_delete (found : st.clientDictionary fd = some info) (parsed : info.state = 1)
    (method : info.method = some .delete) (unbroken : Unbroken input.writes)
    (present : st.files (getFilepath dirTemplate info.filename) ≠ none)
    (listed : info.filename ∈ st.filenameVec) :
    runEpoll dirTemplate st (.ready fd input) =
      some (((st.setFile (getFilepath dirTemplate info.filename) none).forget info.filename).close
        fd, ⟨[.access (getFilepath dirTemplate info.filename),
          .unlink (getFilepath dirTemplate info.filename)], okReply⟩) := by
  have header : ¬ info.state = 0 := by omega
  obtain ⟨later, -, reply⟩ := @writeAllToSocket_eq input.writes okReply unbroken
  have there : info.filename ∈
      (st.setFile (getFilepath dirTemplate info.filename) none).filenameVec := listed
  simp only [runEpoll, found, if_neg header, if_pos parsed, processMethod, method, processDelete,
    if_neg present, if_pos there, reply]

/-- A `DELETE` of a file that is not there sends nothing yet. -/
theorem runEpoll_delete_missing (found : st.clientDictionary fd = some info)
    (parsed : info.state = 1) (method : info.method = some .delete)
    (missing : st.files (getFilepath dirTemplate info.filename) = none) :
    runEpoll dirTemplate st (.ready fd input) =
      some (st.setClient fd { info with state := -3 },
        ⟨[.access (getFilepath dirTemplate info.filename)], []⟩) := by
  have header : ¬ info.state = 0 := by omega
  simp only [runEpoll, found, if_neg header, if_pos parsed, processMethod, method, processDelete,
    if_pos missing]

/-- A connection in another state is sent its error, and closed. -/
theorem runEpoll_error (found : st.clientDictionary fd = some info) (header : info.state ≠ 0)
    (failed : info.state ≠ 1) (unbroken : Unbroken input.writes) :
    runEpoll dirTemplate st (.ready fd input) =
      some (st.close fd, ⟨[], failureBytes library info.state⟩) := by
  simp only [runEpoll, found, if_neg header, if_neg failed, processError, writeEach_eq unbroken,
    failureBytes]
  -- Each of the three errors has its own line, and no other state comes here.
  split
  · simp
  · split
    · simp
    · split <;> simp

/-- The server has the files and the names of a store, and lists its files. -/
structure Shows (dirTemplate : Path) (st : Server library) (store : Store) : Prop where
  contents : ∀ filename, st.files (getFilepath dirTemplate filename) = store.contents filename
  names : st.filenameVec = store.names
  listed : ∀ filename, store.contents filename ≠ none → filename ∈ store.names

/-- Only the files and the names matter. -/
theorem Shows.of_same (shows : Shows dirTemplate before store) (files : after.files = before.files)
    (names : after.filenameVec = before.filenameVec) : Shows dirTemplate after store where
  contents filename := by rw [files, shows.contents]
  names := names.trans shows.names
  listed := shows.listed

/-- Setting a file of the server sets it in the store. -/
theorem Shows.setContent (shows : Shows dirTemplate st store) (content : Option (List UInt8)) :
    (st.setFile (getFilepath dirTemplate filename) content).files (getFilepath dirTemplate other) =
      (store.setContent filename content).contents other := by
  rw [files_setFile, shows.contents]
  exact (Function.update_apply _ _ _ _).symm

/-- A file that is stored is in the store, and listed there. -/
theorem Shows.put (shows : Shows dirTemplate st store) (content : List UInt8) :
    Shows dirTemplate
      ((st.setFile (getFilepath dirTemplate filename) (some content)).record filename
        content.length (st.files (getFilepath dirTemplate filename)).isSome)
      (store.apply (.put filename (some content))).1 where
  contents other := shows.setContent (some content)
  names := by
    show (if _ then st.filenameVec else st.filenameVec ++ [filename]) = if _ then _ else _
    rw [shows.contents, shows.names]
  listed other present := by
    -- Here the new name must be listed as well.
    show other ∈ if _ then _ else _
    -- The name is listed already, or it is added.
    by_cases same : other = filename
    · subst same
      split
      next there => exact shows.listed other (Option.ne_none_iff_isSome.mpr there)
      · exact List.mem_append_right _ (List.mem_singleton.mpr rfl)
    · have old : store.contents other ≠ none := by
        simpa [Store.apply, Store.setContent, Function.update_apply, same] using present
      split
      · exact shows.listed other old
      · exact List.mem_append_left _ (shows.listed other old)

/-- A file that is refused is gone from the store, and its name stays as it is. -/
theorem Shows.refuse (shows : Shows dirTemplate st store) :
    Shows dirTemplate (st.setFile (getFilepath dirTemplate filename) none)
      (store.apply (.put filename none)).1 where
  contents other := shows.setContent none
  names := shows.names
  listed other present := by
    -- Only files that were there before are left.
    have old : store.contents other ≠ none := by
      intro absent
      simp [Store.apply, Store.setContent, Function.update_apply, absent] at present
    exact shows.listed other old

/-- A file that is deleted is gone from the store, with one mention of its name. -/
theorem Shows.delete (shows : Shows dirTemplate st store)
    (present : store.contents filename ≠ none) :
    Shows dirTemplate ((st.setFile (getFilepath dirTemplate filename) none).forget filename)
      (store.apply (.delete filename)).1 := by
  obtain ⟨file, there⟩ := Option.ne_none_iff_exists'.mp present
  have applied : (store.apply (.delete filename)).1 =
      { store.setContent filename none with names := store.names.erase filename } := by
    simp [Store.apply, there]
  rw [applied]
  refine ⟨fun other => shows.setContent none, ?_, fun other kept => ?_⟩
  · -- The server erases the first mention of the name, as the store does.
    show st.filenameVec.erase filename = _
    rw [shows.names]
  · -- The files that are left have other names.
    have differ : other ≠ filename := by
      rintro rfl
      simp [Store.setContent] at kept
    have old : store.contents other ≠ none := by
      simpa [Store.setContent, Function.update_apply, differ] using kept
    exact (List.mem_erase_of_ne differ).mpr (shows.listed other old)

end Events

section Serving

variable {before after st : Server library} {info : InfoClient} {input : Input} {fd : Nat}
  {outcome : Outcome} {filename : Name} {store store' : Store} {sessions : Sessions}
  {session : Nat} {marks : List (Mark Nat Operation (List UInt8))}
  {new : List (Moment Operation (List UInt8))} {action : Action}
  {order : List (Entry Nat Operation Answer)}

/-- What a verb and a name ask for; a `PUT` asks for more than that. -/
def Verb.operation (filename : Name) : Verb → Operation
  | .get => .get filename
  | .delete => .delete filename
  | .list => .list
  | .put => .put filename none

/-- The turns that were taken in a session, as its connection tells. -/
inductive Stage (library : Library) (session : Nat) (info : InfoClient) :
    List (Mark Nat Operation (List UInt8)) → Prop
  | waiting : info.state = 0 → Stage library session info []
  | remembered (verb : Verb) : info.state = 1 → info.method = some verb → verb ≠ .put →
      Stage library session info [⟨session, .call (verb.operation info.filename)⟩]
  | stored (operation : Operation) : info.state = 1 → info.method = some .put →
      Stage library session info ((turns session operation okReply).take 2)
  | failed (operation : Operation) : info.state ≠ 0 → info.state ≠ 1 →
      Stage library session info
        ((turns session operation (failureBytes library info.state)).take 2)

/--
What holds in every run: the turns that can be seen are those of the sessions, the effects are those
of the store, which the server shows; an open connection tells how far its session has come, and
nothing was sent in it so far; and a session without a connection is over or has not begun.
-/
structure Serving (library : Library) (dirTemplate : Path) (sessions : Sessions)
    (st : Server library) (marks : List (Mark Nat Operation (List UInt8)))
    (order : List (Entry Nat Operation Answer)) (store : Store) : Prop where
  shown : history marks = sessions.history
  answers : effects marks = order.map (Entry.mapReply (Answer.bytes library))
  executes : keyValueStore.Executes keyValueStore.initial order store
  fits : ∀ entry ∈ order, entry.reply.Fits
  shows : Shows dirTemplate st store
  stage : ∀ fd info, st.clientDictionary fd = some info →
    Stage library (sessions.session fd) info (ofSession (sessions.session fd) marks)
  unsent : ∀ fd info, st.clientDictionary fd = some info → sessions.sent fd = []
  below : ∀ fd info, st.clientDictionary fd = some info → sessions.session fd < sessions.count
  apart : ∀ fd info other more, st.clientDictionary fd = some info →
    st.clientDictionary other = some more → sessions.session fd = sessions.session other →
    fd = other
  closed : ∀ session, (∀ fd info, st.clientDictionary fd = some info →
      sessions.session fd ≠ session) →
    ofSession session marks = [] ∨
      ∃ operation reply, ofSession session marks = turns session operation reply
  fresh : ∀ session, sessions.count ≤ session → ofSession session marks = []

/-- The turns in a session are the first ones of a whole session. -/
theorem Stage.prefix_turns (stage : Stage library session info marks) :
    marks = [] ∨ ∃ operation reply, marks <+: turns session operation reply := by
  cases stage with
  | waiting _ => exact .inl rfl
  | remembered verb _ _ _ =>
    exact .inr ⟨verb.operation info.filename, [], List.take_prefix 1 (turns session _ _)⟩
  | stored operation _ _ => exact .inr ⟨operation, okReply, List.take_prefix _ _⟩
  | failed operation _ _ => exact .inr ⟨operation, _, List.take_prefix _ _⟩

/-- Every session takes its turns one after the other. -/
theorem Serving.inTurns (serving : Serving library dirTemplate sessions st marks order store) :
    InTurns marks := by
  intro session
  -- A session still has its connection, or it is over.
  by_cases opened : ∃ fd info, st.clientDictionary fd = some info ∧
      sessions.session fd = session
  · obtain ⟨fd, info, found, rfl⟩ := opened
    exact (serving.stage fd info found).prefix_turns
  · simp only [not_exists, not_and] at opened
    rcases serving.closed session opened with none | ⟨operation, reply, whole⟩
    · exact .inl none
    · exact .inr ⟨operation, reply, whole ▸ List.prefix_rfl⟩

/-- A new connection begins a session. -/
theorem Serving.accept (serving : Serving library dirTemplate sessions st marks order store)
    (free : st.clientDictionary fd = none) :
    Serving library dirTemplate
      (sessions.next ⟨st, ⟨.accept fd, outcome⟩, st.setClient fd ⟨0, none, []⟩⟩)
      (st.setClient fd ⟨0, none, []⟩) marks order store := by
  -- Another connection keeps its session, whose number is smaller.
  have old : ∀ {other more}, (st.setClient fd ⟨0, none, []⟩).clientDictionary other = some more →
      other ≠ fd → st.clientDictionary other = some more := fun found differ => by
    simpa [Server.setClient, Function.update_apply, differ] using found
  refine ⟨serving.shown, serving.answers, serving.executes, serving.fits,
    serving.shows.of_same rfl rfl, ?_, ?_, ?_, ?_, ?_, ?_⟩
  · -- The new session has taken no turn, since its number was not used before.
    intro other more found
    by_cases same : other = fd
    · subst same
      obtain rfl : _ = more := Option.some.inj (by simpa using found)
      simp only [Sessions.next, Function.update_self]
      rw [serving.fresh _ le_rfl]
      exact .waiting rfl
    · have kept := serving.stage other more (old found same)
      simpa [Sessions.next, Function.update_apply, same] using kept
  · intro other more found
    by_cases same : other = fd
    · simp [Sessions.next, same]
    · have kept := serving.unsent other more (old found same)
      simpa [Sessions.next, Function.update_apply, same] using kept
  · intro other more found
    by_cases same : other = fd
    · simp [Sessions.next, same]
    · have := serving.below other more (old found same)
      simp only [Sessions.next, Function.update_apply, if_neg same]
      omega
  · -- No connection that is open has the number of the new one.
    intro one info other more found again equal
    by_cases first : one = fd <;> by_cases second : other = fd
    · rw [first, second]
    · have := serving.below other more (old again second)
      simp only [Sessions.next, Function.update_apply, if_pos first, if_neg second] at equal
      omega
    · have := serving.below one info (old found first)
      simp only [Sessions.next, Function.update_apply, if_neg first, if_pos second] at equal
      omega
    · simp only [Sessions.next, Function.update_apply, if_neg first, if_neg second] at equal
      exact serving.apart one info other more (old found first) (old again second) equal
  · intro number closed
    refine serving.closed number fun other more found equal => ?_
    -- A descriptor that was open is another one than the new one.
    have differ : other ≠ fd := by
      rintro rfl
      rw [free] at found
      cases found
    refine closed other more ?_ ?_
    · simpa [Server.setClient, Function.update_apply, differ] using found
    · simpa [Sessions.next, Function.update_apply, differ] using equal
  · intro number large
    exact serving.fresh number (by simp only [Sessions.next] at large; omega)

theorem ofSession_turns (session : Nat) (new : List (Moment Operation (List UInt8))) :
    ofSession session (new.map fun turn => (⟨session, turn⟩ : Mark Nat _ _)) =
      new.map fun turn => ⟨session, turn⟩ := by
  simp [ofSession]

theorem ofSession_other {other : Nat} (differ : session ≠ other)
    (new : List (Moment Operation (List UInt8))) :
    ofSession other (new.map fun turn => (⟨session, turn⟩ : Mark Nat _ _)) = [] := by
  simp [ofSession, differ]

/--
An event of an open connection: its session takes some turns, which the store answers, and either
its connection stays and tells of them, with nothing sent, or the session is over.
-/
theorem Serving.event (serving : Serving library dirTemplate sessions before marks order store)
    (found : before.clientDictionary fd = some info) (cell : Option InfoClient)
    (clients : after.clientDictionary = Function.update before.clientDictionary fd cell)
    (new : List (Moment Operation (List UInt8))) (made : List (Entry Nat Operation Answer))
    (answers : effects (new.map fun turn => (⟨sessions.session fd, turn⟩ : Mark Nat _ _)) =
      made.map (Entry.mapReply (Answer.bytes library)))
    (executes : keyValueStore.Executes store made store')
    (fits : ∀ entry ∈ made, entry.reply.Fits)
    (shows : Shows dirTemplate after store')
    (shown : history (new.map fun turn => (⟨sessions.session fd, turn⟩ : Mark Nat _ _)) =
      (visible ⟨before, ⟨.ready fd input, outcome⟩, after⟩ fd input outcome.sent).map fun turn =>
        ⟨sessions.session fd, turn⟩)
    (stays : ∀ more, cell = some more → outcome.sent = [] ∧
      Stage library (sessions.session fd) more (ofSession (sessions.session fd) marks ++
        new.map fun turn => ⟨sessions.session fd, turn⟩))
    (ends : cell = none → ∃ operation reply,
      (ofSession (sessions.session fd) marks ++ new.map fun turn => ⟨sessions.session fd, turn⟩) =
        turns (sessions.session fd) operation reply) :
    Serving library dirTemplate
      (sessions.next ⟨before, ⟨.ready fd input, outcome⟩, after⟩) after
      (marks ++ new.map fun turn => ⟨sessions.session fd, turn⟩) (order ++ made) store' := by
  have unsent := serving.unsent fd info found
  have old : ∀ {other more}, after.clientDictionary other = some more → other ≠ fd →
      before.clientDictionary other = some more := fun found differ => by
    rwa [clients, Function.update_of_ne differ] at found
  -- The sessions of other descriptors take no turn.
  have others : ∀ {other more}, before.clientDictionary other = some more → other ≠ fd →
      sessions.session fd ≠ sessions.session other := fun again differ equal =>
    differ (serving.apart fd info _ _ found again equal).symm
  refine ⟨?_, ?_, AtomicObject.executes_append.mpr ⟨store, serving.executes, executes⟩, ?_, shows,
    ?_, ?_, ?_, ?_, ?_, ?_⟩
  · -- Nothing was sent before, so what is seen is what this event sends.
    simp only [Sessions.next, unsent, List.nil_append]
    rw [← serving.shown, ← shown]
    exact List.filter_append ..
  · rw [effects_append, serving.answers, answers, List.map_append]
  · intro entry member
    exact (List.mem_append.mp member).elim (serving.fits entry) (fits entry)
  · -- The turns of the other sessions are those that they were.
    intro other more again
    show Stage library (sessions.session other) more (ofSession (sessions.session other) _)
    rw [ofSession_append]
    by_cases same : other = fd
    · subst same
      rw [ofSession_turns]
      rw [clients, Function.update_self] at again
      exact (stays more again).2
    · rw [ofSession_other (others (old again same) same), List.append_nil]
      exact serving.stage other more (old again same)
  · intro other more again
    show Function.update sessions.sent fd _ other = []
    by_cases same : other = fd
    · subst same
      rw [clients, Function.update_self] at again
      rw [Function.update_self, unsent, (stays more again).1]
      rfl
    · rw [Function.update_of_ne same]
      exact serving.unsent other more (old again same)
  · -- No descriptor gets another session.
    intro other more again
    by_cases same : other = fd
    · rw [same]
      exact serving.below fd info found
    · exact serving.below other more (old again same)
  · -- If one of the two is the descriptor of the event, its old state will do.
    intro one first other second again more equal
    by_cases left : one = fd <;> by_cases right : other = fd
    · rw [left, right]
    · subst left
      exact serving.apart one info other second found (old more right) equal
    · subst right
      exact serving.apart one first other info (old again left) found equal
    · exact serving.apart one first other second (old again left) (old more right) equal
  · intro number closed
    rw [ofSession_append]
    by_cases same : sessions.session fd = number
    · -- The session of the event is over if its connection was closed.
      subst same
      rw [ofSession_turns]
      cases gone : cell with
      | none => exact .inr (ends gone)
      | some more =>
        refine absurd rfl (closed fd more ?_)
        rw [clients, Function.update_self, gone]
    · rw [ofSession_other same, List.append_nil]
      -- The session is that of no open connection, so it was not before either.
      refine serving.closed number fun other more again equal => ?_
      by_cases this : other = fd
      · exact same (this ▸ equal)
      · refine closed other more ?_ equal
        rw [clients, Function.update_of_ne this, again]
  · intro number large
    have small := serving.below fd info found
    -- A number that was not given yet is not that of the event.
    have differ : sessions.session fd ≠ number := by
      have : sessions.count ≤ number := large
      omega
    rw [ofSession_append, ofSession_other differ, List.append_nil]
    exact serving.fresh number large

/-- Reading a header shows its request. -/
theorem visible_header {sent : List UInt8} (found : before.clientDictionary fd = some info)
    (header : info.state = 0) (stays : after.clientDictionary fd ≠ none) :
    visible ⟨before, ⟨.ready fd input, outcome⟩, after⟩ fd input sent =
      [.call input.operation] := by
  simp [visible, found, header, stays]

/-- An event behind the header shows nothing while the connection stays. -/
theorem visible_quiet {sent : List UInt8} (found : before.clientDictionary fd = some info)
    (header : info.state ≠ 0) (stays : after.clientDictionary fd ≠ none) :
    visible ⟨before, ⟨.ready fd input, outcome⟩, after⟩ fd input sent = [] := by
  simp [visible, found, header, stays]

/-- The last event shows what was sent. -/
theorem visible_closed {sent : List UInt8} (found : before.clientDictionary fd = some info)
    (header : info.state ≠ 0) (closed : after.clientDictionary fd = none) :
    visible ⟨before, ⟨.ready fd input, outcome⟩, after⟩ fd input sent = [.answer sent] := by
  simp [visible, found, header, closed]

/-- A request that is no `PUT` is the one that its verb and its name tell. -/
theorem operation_of_request {verb : Verb} {rest : List UInt8}
    (request : input.request = some (verb, filename, rest)) (other : verb ≠ .put) :
    input.operation = verb.operation filename := by
  cases verb <;> simp_all [Input.operation, Verb.operation]

/-- A connection whose header is read has taken no turn so far. -/
theorem Serving.waiting (serving : Serving library dirTemplate sessions st marks order store)
    (found : st.clientDictionary fd = some info) (header : info.state = 0) :
    ofSession (sessions.session fd) marks = [] := by
  have stage := serving.stage fd info found
  generalize ofSession (sessions.session fd) marks = taken at stage ⊢
  -- The other stages come behind the header.
  cases stage with
  | waiting _ => rfl
  | remembered verb state _ _ => omega
  | stored operation state _ => omega
  | failed operation state _ => exact absurd header state

/-- What the store does for one request. -/
theorem executes_of_apply {operation : Operation} {answer : Answer}
    (applied : store.apply operation = (store', answer)) :
    keyValueStore.Executes store [(⟨session, operation, answer⟩ : Entry Nat _ _)] store' := by
  refine ⟨?_, ?_⟩
  · show (store.apply operation).2 = answer
    rw [applied]
  · show store' = (store.apply operation).1
    rw [applied]

/-- One request whose answer fits. -/
theorem fits_single {operation : Operation} {answer : Answer} (fits : answer.Fits) :
    ∀ entry ∈ [(⟨session, operation, answer⟩ : Entry Nat _ _)], entry.reply.Fits := by
  rintro _ member
  rw [List.mem_singleton.mp member]
  exact fits

/-- A header is read: its request is called, and a `PUT` or a bad request takes effect at once. -/
theorem Serving.header (serving : Serving library dirTemplate sessions before marks order store)
    (found : before.clientDictionary fd = some info) (header : info.state = 0)
    (unbroken : Unbroken input.reads)
    (done : runEpoll dirTemplate before (.ready fd input) = some (after, outcome)) :
    ∃ marks' order' store', Serving library dirTemplate
      (sessions.next ⟨before, ⟨.ready fd input, outcome⟩, after⟩) after marks' order' store' := by
  have none_yet := serving.waiting found header
  cases request : input.request with
  | none =>
    -- A bad request is called and refused by the same event.
    obtain ⟨rfl, rfl⟩ := runEpoll_malformed found header request done
    have called : input.operation = .malformed := by simp [Input.operation, request]
    refine ⟨_, _, _, serving.event found _ rfl
      [.call input.operation, .effect .malformed (failureBytes library (-1))]
      [⟨_, .malformed, .badRequest⟩] rfl (executes_of_apply rfl) (fits_single trivial)
      (serving.shows.of_same rfl rfl) ?_ ?_ nofun⟩
    · rw [visible_header found header (by simp)]
      rfl
    · rintro _ ⟨⟩
      refine ⟨rfl, ?_⟩
      rw [none_yet, called]
      exact .failed .malformed (by decide : (-1 : Int) ≠ 0) (by decide : (-1 : Int) ≠ 1)
  | some asked =>
    obtain ⟨verb, remote, rest⟩ := asked
    by_cases put : verb = .put
    · subst put
      by_cases complete : SendsDeclared input.stale rest
      · -- The file is stored before the client is answered.
        rw [runEpoll_stored found header unbroken request complete] at done
        cases done
        have called : input.operation = .put remote (some (rest.drop sizeBytes)) := by
          simp [Input.operation, request, complete]
        refine ⟨_, _, _, serving.event found _ rfl
          [.call input.operation, .effect (.put remote (some (rest.drop sizeBytes))) okReply]
          [⟨_, .put remote (some (rest.drop sizeBytes)), .done⟩] rfl (executes_of_apply rfl)
          (fits_single trivial) ((serving.shows.put _).of_same rfl rfl) ?_ ?_ nofun⟩
        · rw [visible_header found header (by simp)]
          rfl
        · rintro _ ⟨⟩
          refine ⟨rfl, ?_⟩
          rw [none_yet, called]
          exact .stored _ rfl rfl
      · -- The old file is gone although the new one is refused.
        rw [runEpoll_refused found header unbroken request complete] at done
        cases done
        have called : input.operation = .put remote none := by
          simp [Input.operation, request, complete]
        refine ⟨_, _, _, serving.event found _ rfl
          [.call input.operation, .effect (.put remote none) (failureBytes library (-2))]
          [⟨_, .put remote none, .badFileSize⟩] rfl (executes_of_apply rfl)
          (fits_single trivial) (serving.shows.refuse.of_same rfl rfl) ?_ ?_ nofun⟩
        · rw [visible_header found header (by simp)]
          rfl
        · rintro _ ⟨⟩
          refine ⟨rfl, ?_⟩
          rw [none_yet, called]
          exact .failed _ (by decide : (-2 : Int) ≠ 0) (by decide : (-2 : Int) ≠ 1)
    · -- The other requests take effect at a later event.
      rw [runEpoll_remembered found header unbroken request put] at done
      cases done
      refine ⟨_, _, _, serving.event found _ rfl [.call input.operation] [] rfl rfl nofun
        (serving.shows.of_same rfl rfl) ?_ ?_ nofun⟩
      · rw [visible_header found header (by simp)]
        rfl
      · rintro _ ⟨⟩
        refine ⟨rfl, ?_⟩
        rw [none_yet, operation_of_request request put]
        exact .remembered verb rfl rfl put

/-- A request that was remembered is carried out and answered at once. -/
theorem Serving.carried (serving : Serving library dirTemplate sessions before marks order store)
    (found : before.clientDictionary fd = some info) (header : info.state ≠ 0)
    {operation : Operation} (answer : Answer)
    (called : ofSession (sessions.session fd) marks = [⟨sessions.session fd, .call operation⟩])
    (applied : store.apply operation = (store', answer)) (fits : answer.Fits)
    (closed : after.clientDictionary = Function.update before.clientDictionary fd none)
    (shows : Shows dirTemplate after store') (sent : outcome.sent = answer.bytes library) :
    ∃ marks' order' store', Serving library dirTemplate
      (sessions.next ⟨before, ⟨.ready fd input, outcome⟩, after⟩) after marks' order' store' := by
  refine ⟨_, _, store', serving.event found none closed
    [.effect operation (answer.bytes library), .answer (answer.bytes library)]
    [⟨_, operation, answer⟩] rfl (executes_of_apply applied) (fits_single fits) shows ?_ nofun ?_⟩
  · rw [visible_closed found header (by rw [closed, Function.update_self]), sent]
    rfl
  · exact fun _ => ⟨operation, answer.bytes library, by rw [called]; rfl⟩

/-- A request that was remembered finds no file, and is answered at the next event. -/
theorem Serving.missing (serving : Serving library dirTemplate sessions before marks order store)
    (found : before.clientDictionary fd = some info) (header : info.state ≠ 0)
    {operation : Operation}
    (called : ofSession (sessions.session fd) marks = [⟨sessions.session fd, .call operation⟩])
    (applied : store.apply operation = (store, .noSuchFile)) (silent : outcome.sent = [])
    (same : after = before.setClient fd { info with state := -3 }) :
    ∃ marks' order' store', Serving library dirTemplate
      (sessions.next ⟨before, ⟨.ready fd input, outcome⟩, after⟩) after marks' order' store' := by
  subst same
  refine ⟨_, _, store, serving.event found _ rfl
    [.effect operation (failureBytes library (-3))] [⟨_, operation, .noSuchFile⟩] rfl
    (executes_of_apply applied) (fits_single trivial) (serving.shows.of_same rfl rfl) ?_ ?_ nofun⟩
  · rw [visible_quiet found header (by simp)]
    rfl
  · rintro _ ⟨⟩
    refine ⟨silent, ?_⟩
    rw [called]
    exact .failed operation (by decide : (-3 : Int) ≠ 0) (by decide : (-3 : Int) ≠ 1)

/-- A request whose header was read is carried out, or its file is found to be missing. -/
theorem Serving.request (serving : Serving library dirTemplate sessions before marks order store)
    (known : Known dirTemplate before) (listed : Listed before)
    (found : before.clientDictionary fd = some info) (parsed : info.state = 1)
    (unbroken : Unbroken input.writes)
    (done : runEpoll dirTemplate before (.ready fd input) = some (after, outcome)) :
    ∃ marks' order' store', Serving library dirTemplate
      (sessions.next ⟨before, ⟨.ready fd input, outcome⟩, after⟩) after marks' order' store' := by
  have header : info.state ≠ 0 := by omega
  have stage := serving.stage fd info found
  generalize turned : ofSession (sessions.session fd) marks = taken at stage
  cases stage with
  | waiting state => omega
  | failed operation _ state => exact absurd parsed state
  | stored operation _ method =>
    -- The effect of a `PUT` is behind, and only its answer is missing.
    rw [runEpoll_put found parsed method unbroken] at done
    cases done
    refine ⟨_, _, store, serving.event found none rfl [.answer okReply] [] rfl rfl nofun
      (serving.shows.of_same rfl rfl) ?_ nofun fun _ => ⟨operation, okReply, ?_⟩⟩
    · rw [visible_closed found header (by simp)]
      rfl
    · rw [turned]
      rfl
  | remembered verb _ method other =>
    cases verb with
    | put => exact absurd rfl other
    | list =>
      rw [runEpoll_list found parsed method unbroken] at done
      cases done
      -- The announced length is that of the names, which are few enough to count.
      obtain ⟨size, small⟩ := listed.size
      refine serving.carried found header (.names store.names) turned rfl ⟨?_, ?_⟩ rfl
        (serving.shows.of_same rfl rfl) ?_
      · rw [← serving.shows.names, ← size]
        simp only [sizeRange]
        omega
      · rw [← serving.shows.names]
        exact listed.plain
      · rw [size, serving.shows.names]
        rfl
    | get =>
      cases there : store.contents info.filename with
      | some file =>
        -- The file of the store is the one on the disk.
        have onDisk := (serving.shows.contents info.filename).trans there
        rw [runEpoll_get found parsed method unbroken onDisk (known _ _ onDisk).1] at done
        cases done
        refine serving.carried found header (.content file) turned ?_ (known _ _ onDisk).2 rfl
          (serving.shows.of_same rfl rfl) rfl
        show store.apply (.get info.filename) = _
        simp only [Store.apply, there]
      | none =>
        have onDisk := (serving.shows.contents info.filename).trans there
        rw [runEpoll_get_missing found parsed method onDisk] at done
        cases done
        refine serving.missing found header turned ?_ rfl rfl
        show store.apply (.get info.filename) = _
        simp only [Store.apply, there]
    | delete =>
      cases there : store.contents info.filename with
      | some file =>
        have present : store.contents info.filename ≠ none := by simp [there]
        have onDisk : before.files (getFilepath dirTemplate info.filename) ≠ none := by
          rwa [serving.shows.contents]
        -- A file that is there is listed, so that the name is found.
        have inList : info.filename ∈ before.filenameVec := by
          rw [serving.shows.names]
          exact serving.shows.listed _ present
        rw [runEpoll_delete found parsed method unbroken onDisk inList] at done
        cases done
        refine serving.carried found header .done turned ?_ trivial rfl
          ((serving.shows.delete present).of_same rfl rfl) rfl
        show store.apply (.delete info.filename) = _
        simp only [Store.apply, there]
      | none =>
        have onDisk := (serving.shows.contents info.filename).trans there
        rw [runEpoll_delete_missing found parsed method onDisk] at done
        cases done
        refine serving.missing found header turned ?_ rfl rfl
        show store.apply (.delete info.filename) = _
        simp only [Store.apply, there]

/-- A connection whose request failed is sent its error. -/
theorem Serving.error (serving : Serving library dirTemplate sessions before marks order store)
    (found : before.clientDictionary fd = some info) (header : info.state ≠ 0)
    (failed : info.state ≠ 1) (unbroken : Unbroken input.writes)
    (done : runEpoll dirTemplate before (.ready fd input) = some (after, outcome)) :
    ∃ marks' order' store', Serving library dirTemplate
      (sessions.next ⟨before, ⟨.ready fd input, outcome⟩, after⟩) after marks' order' store' := by
  rw [runEpoll_error found header failed unbroken] at done
  cases done
  have stage := serving.stage fd info found
  generalize turned : ofSession (sessions.session fd) marks = taken at stage
  -- The effect was the refusal; only the answer is missing.
  cases stage with
  | waiting state => exact absurd state header
  | remembered verb state _ _ => exact absurd state failed
  | stored operation state _ => exact absurd state failed
  | failed operation _ _ =>
    refine ⟨_, _, store, serving.event found none rfl
      [.answer (failureBytes library info.state)] [] rfl rfl nofun
      (serving.shows.of_same rfl rfl) ?_ nofun fun _ => ⟨operation, failureBytes library info.state, ?_⟩⟩
    · rw [visible_closed found header (by simp)]
      rfl
    · rw [turned]
      rfl

/-- Every step serves the sessions. -/
theorem Serving.step (serving : Serving library dirTemplate sessions before marks order store)
    (known : Known dirTemplate before) (listed : Listed before)
    (step : Step library dirTemplate before action after) :
    ∃ marks' order' store', Serving library dirTemplate
      (sessions.next ⟨before, action, after⟩) after marks' order' store' := by
  obtain ⟨event, outcome⟩ := action
  have done := step.executed
  cases event with
  | accept fd =>
    simp only [runEpoll] at done
    -- A descriptor is accepted only while it is free.
    split at done
    next free =>
      cases done
      exact ⟨marks, order, store, serving.accept free⟩
    · cases done
  | ready fd input =>
    obtain ⟨reads, writes⟩ := step.unbroken fd input rfl
    cases found : before.clientDictionary fd with
    | none => simp [runEpoll, found] at done
    | some info =>
      -- The state of the connection says what its event is about.
      by_cases header : info.state = 0
      · exact serving.header found header reads done
      · by_cases parsed : info.state = 1
        · exact serving.request known listed found parsed writes done
        · exact serving.error found header parsed writes done

end Serving

variable {trace : List (Transition (Server library) Action)} {final : Server library}

end SystemProgramming.FileServer
