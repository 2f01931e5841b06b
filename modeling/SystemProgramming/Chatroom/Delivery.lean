import SystemProgramming.Chatroom.Broadcast
import SystemProgramming.Foundations.Interleaving

/-! From the keyboard of one client to the screens of all: everybody sees the same lines. -/

namespace SystemProgramming.Chatroom

open Foundations

/-- What a user types under a name: two strings. -/
structure Line where
  name : List UInt8
  text : List UInt8
  plainName : (0 : UInt8) ∉ name
  plainText : (0 : UInt8) ∉ text

/-- `create_message`, up to the zero byte at its end. -/
def createMessage (name message : List UInt8) : List UInt8 := name ++ [58, 32] ++ message

/-- What the user of another client reads of a line. -/
def Line.shown (line : Line) : List UInt8 := createMessage line.name line.text

/-- What `write_to_server` sends of a line: the message and its zero byte. -/
def Line.packet (line : Line) : List UInt8 := line.shown ++ [0]

/-- What `read_from_server` has printed of the bytes that have come: the strings in its buffers. -/
def screen (fragments : List Fragment) (stream : List UInt8) : List (List UInt8) :=
  (readMessages fragments stream).messages.map fun buffer => buffer.takeWhile (· ≠ 0)

/-- A line is printed as it was composed. -/
theorem Line.takeWhile_packet (line : Line) : line.packet.takeWhile (· ≠ 0) = line.shown := by
  -- Neither string has a zero byte, and the two between them are none.
  have kept : ∀ byte ∈ line.shown, decide (byte ≠ 0) = true := by
    intro byte member
    simp only [shown, createMessage, List.mem_append, List.mem_cons, List.not_mem_nil,
      or_false] at member
    rcases member with (inName | rfl | rfl) | inText
    · simpa using fun zero : byte = 0 => line.plainName (zero ▸ inName)
    · rfl
    · rfl
    · simpa using fun zero : byte = 0 => line.plainText (zero ▸ inText)
  rw [packet, List.takeWhile_append_of_pos kept]
  exact List.append_nil _

section Partial

variable {messages : List (List UInt8)} {message : List UInt8}

/-- From frames and what follows them, their messages are read first. -/
theorem readMessages_frames_append (fragments : List Fragment)
    (sized : ∀ message ∈ messages, Sized message) (rest : List UInt8) :
    ∃ later, (readMessages fragments (messages.flatMap frame ++ rest)).messages =
      messages ++ (readMessages later rest).messages := by
  induction messages generalizing fragments with
  | nil => exact ⟨fragments, rfl⟩
  | cons message messages ih =>
    obtain ⟨sizedHead, sizedRest⟩ := List.forall_mem_cons.mp sized
    -- One frame at a time; what was read so far says where the reads go on.
    obtain ⟨later, first⟩ := readMessages_frame fragments sizedHead (messages.flatMap frame ++ rest)
    obtain ⟨last, whole⟩ := ih later sizedRest
    refine ⟨last, ?_⟩
    rw [List.flatMap_cons, List.append_assoc, first, List.cons_append, whole]

/-- As long as a part of a frame is missing, nothing is read of its message. -/
theorem readMessages_of_part (fragments : List Fragment) (sized : Sized message)
    {part missing : List UInt8} (whole : part ++ missing = frame message) (some : missing ≠ []) :
    (readMessages fragments part).messages = [] := by
  have total := congrArg List.length whole
  have lacks := List.length_pos_iff.mpr some
  have size := sized.2
  simp only [frame, List.length_append, length_sizeBuf] at total
  -- A frame is a size and a message, and the part ends in one of them.
  rcases Nat.lt_or_ge part.length messageSizeDigits with short | enough
  · -- The size itself has not come as a whole.
    have ended : (getMessageSize fragments part).returned = 0 := by
      simp only [getMessageSize]
      have outcome := readAllFromSocket_outcome fragments part
        (by decide : messageSizeDigits < 2 ^ 63)
      generalize readAllFromSocket fragments part messageSizeDigits = read at outcome ⊢
      cases outcome with
      | whole enough => omega
      | ended => rfl
    rw [readMessages]
    simp only [ended]
    rfl
  · -- The size has come, and the reader waits for the message.
    have split : part = sizeBuf message.length ++ part.drop messageSizeDigits := by
      have front := congrArg (List.take messageSizeDigits) whole
      rw [List.take_append_of_le_length enough, frame,
        List.take_append_of_le_length (length_sizeBuf _).ge,
        List.take_of_length_le (length_sizeBuf message.length).le] at front
      rw [← front, List.take_append_drop]
    obtain ⟨later, read⟩ := getMessageSize_sizeBuf fragments size (part.drop messageSizeDigits)
    rw [← split] at read
    have below : message.length < 2 ^ 63 := by omega
    have outcome := readAllFromSocket_outcome later (part.drop messageSizeDigits) below
    -- Fewer bytes are there than the size says.
    have short : ((part.drop messageSizeDigits).length : Int) < message.length := by
      rw [List.length_drop]
      omega
    have ended : (readAllFromSocket later (part.drop messageSizeDigits) message.length).returned =
        0 := by
      generalize readAllFromSocket later (part.drop messageSizeDigits) message.length = got
        at outcome ⊢
      cases outcome with
      | whole enough => omega
      | ended => rfl
    have positive : 0 < (message.length : Int) := by exact_mod_cast sized.1
    rw [readMessages]
    simp only [read, if_pos positive, Int.toNat_natCast, ended, lt_irrefl, if_false]

end Partial

variable {Thread : Type*}

section Newcomers

variable {st after : State Thread} {action : Action Thread} {connection : Connection}

/-- To a connection that is not in the table yet, nothing was sent. -/
structure Unheard (st : State Thread) : Prop where
  later : ∀ connection, st.connections ≤ connection → st.received connection = []
  arriving : ∀ clientFd connection, (st.place .runServer).incoming = some clientFd →
    st.sockets clientFd = some connection → st.received connection = []

/-- At the beginning, nothing was sent to anybody. -/
theorem Unheard.start : Unheard (start : State Thread) where
  later _ _ := rfl
  arriving _ _ _ _ := rfl

variable [DecidableEq Thread]

/-- What a step sends goes to the descriptor of a frame that is being written. -/
theorem Step.received (step : Step st action after) (connection : Connection) :
    after.received connection = st.received connection ∨
      ∃ party slot socket, (st.place party).aim = some (slot, socket) ∧
        st.sockets socket = some connection ∧ after.sockets = st.sockets ∧
        after.connections = st.connections ∧
        ∃ bytes, after.received connection = st.received connection ++ bytes := by
  cases step with
  | @put thread clientId slot amount message rest part socket target here connected =>
    -- Only `put` sends, and it sends to one connection.
    by_cases same : connection = target
    · subst same
      refine .inr ⟨.processClient thread, slot, socket, ?_, connected, rfl, rfl, _,
        Function.update_self _ _ _⟩
      rw [here]
      rfl
    · exact .inl (Function.update_of_ne same _ _)
  | signal | move | lock | unlock | accept | claim | miss | count | refuse | create | begin | close
  | clear | uncount => exact .inl rfl

/-- What was received stays received. -/
theorem Step.received_prefix (step : Step st action after) (connection : Connection) :
    st.received connection <+: after.received connection := by
  rcases step.received connection with same | ⟨_, _, _, _, _, _, _, bytes, more⟩
  · rw [same]
  · rw [more]
    exact List.prefix_append _ _

/-- A descriptor that waits for its slot after a step and has a connection had it before, or is new. -/
theorem Step.arriving {clientFd : Int} (step : Step st action after)
    (shown : (after.place .runServer).incoming = some clientFd)
    (connected : after.sockets clientFd = some connection) :
    ((st.place .runServer).incoming = some clientFd ∧ st.sockets clientFd = some connection) ∨
      connection = st.connections := by
  -- A descriptor that has just come was not open before.
  have waits : st.sockets clientFd ≠ none → (st.place .runServer).incoming = some clientFd := by
    intro opened
    rcases step.incoming shown with old | ⟨accepts, -⟩
    · exact old
    · exact absurd (step.unopened accepts).2 opened
  -- A descriptor that is closed is not the one with the connection.
  have old : ∀ {sockets : Int → Option Connection} {closed : Int},
      after.sockets = Function.update st.sockets closed none →
      st.sockets clientFd = some connection := by
    intro _ closed sockets
    rw [sockets, Function.update_apply] at connected
    split at connected
    · cases connected
    · exact connected
  cases step.change with
  | none _ sockets | claim _ _ _ _ sockets | clear _ _ sockets =>
    rw [sockets] at connected
    exact .inl ⟨waits (by simp [connected]), connected⟩
  | refuse _ _ _ sockets | close _ _ _ sockets =>
    have before := @old st.sockets _ sockets
    exact .inl ⟨waits (by simp [before]), before⟩
  | @accept newFd _ _ _ sockets =>
    rw [sockets, Function.update_apply] at connected
    split at connected
    · exact .inr (Option.some.inj connected).symm
    · exact .inl ⟨waits (by simp [connected]), connected⟩

/-- A step opens at most one connection, with the next number. -/
theorem Step.connections_le (step : Step st action after) :
    st.connections ≤ after.connections := by
  cases step.change with
  | none _ _ connections | refuse _ _ _ _ connections | close _ _ _ _ connections
  | claim _ _ _ _ _ connections | clear _ _ _ connections => exact connections.ge
  | accept _ _ _ _ connections => omega

/-- Every step keeps newcomers from being sent anything. -/
theorem Unheard.step (unheard : Unheard st) (wired : Wired st) (aimed : Aimed st)
    (step : Step st action after) : Unheard after where
  later connection beyond := by
    have before := unheard.later connection (step.connections_le.trans beyond)
    rcases step.received connection with same | ⟨_, _, socket, _, connected, _, same, _⟩
    · rw [same, before]
    · -- Only connections that were opened are written to.
      exact absurd (wired.numbered socket connection connected) (same ▸ not_lt.mpr beyond)
  arriving clientFd connection shown connected := by
    have before : st.received connection = [] := by
      rcases step.arriving shown connected with ⟨waits, old⟩ | rfl
      · exact unheard.arriving clientFd connection waits old
      · exact unheard.later _ le_rfl
    rcases step.received connection with same | ⟨party, slot, socket, aim, open', same, _, _⟩
    · rw [same, before]
    · -- What is written to is in the table, and the newcomer is not.
      rw [same] at connected
      obtain rfl := wired.injective clientFd socket connection connected open'
      obtain ⟨within, entry, -⟩ := aimed party slot clientFd aim
      rcases step.incoming shown with waits | ⟨accepts, -⟩
      · exact absurd entry (wired.fresh clientFd waits slot within)
      · rw [(step.unopened accepts).2] at connected
        cases connected

/-- When a client gets its slot, no frame is being written, and nothing was sent to it. -/
theorem Step.admits {slot : Nat} (unheard : Unheard st) (booked : st.Booked)
    (step : Step st ⟨.runServer, .claim⟩ after) (free : st.clients slot = -1)
    (stays : Stays slot connection after) : Quiet after ∧ after.received connection = [] := by
  have booked' := booked.step step
  cases step with
  | move moves =>
    -- The event is `claim`, so no other kind of step is left.
    generalize st.place .runServer = place at moves
    cases moves
  | @claim clientFd here below found =>
    constructor
    · -- The main thread holds the mutex.
      intro party
      cases reached : ((_ : State Thread).place party).reached with
      | none => rfl
      | some bound =>
        have locked := Place.locked_of_reached reached
        by_cases same : party = .runServer
        · subst same
          simp [State.goto, Place.reached] at reached
        · have holds : (Place.counting (search st.clients)).locked = true := rfl
          have others := @Booked.others_free _ _ _ _ _ .runServer party booked' (by simp [State.goto, holds]) same
          rw [others] at locked
          cases locked
    · obtain ⟨within, taken, connected⟩ := stays
      -- The slot was free before, so it is the one that was found.
      have same : slot = search st.clients := by
        by_contra apart
        exact taken ((Function.update_of_ne apart _ _).trans free)
      subst same
      simp only [Function.update_self, State.goto] at connected
      refine unheard.arriving clientFd connection ?_ connected
      rw [here]
      rfl

end Newcomers

section Lateness

variable [DecidableEq Thread] {st after origin final : State Thread} {action : Action Thread}
  {trace : List (Transition (State Thread) (Action Thread))} {slot : Nat}
  {connection : Connection}

/-- What is due belongs to the last message that was sent, if there is one. -/
def Late (slot : Nat) (trace : List (Transition (State Thread) (Action Thread)))
    (st : State Thread) : Prop :=
  ∃ done last, (sent trace).map Prod.snd = done ++ last ∧ last.length ≤ 1 ∧
    st.due slot <:+ last.flatMap frame

/-- A step sends some of what is due, or begins a call when nothing is due. -/
theorem Step.due (step : Step st action after)
    (balanced : Balanced slot connection ⟨st, action, after⟩) :
    (sent [⟨st, action, after⟩] = [] ∧ after.due slot <:+ st.due slot) ∨
      ∃ party message, sent [⟨st, action, after⟩] = [(party, message)] ∧
        after.due slot = frame message := by
  have grows := step.received_prefix connection
  simp only [Balanced] at balanced
  -- Nothing is sent that was not due.
  have shrinks : sent [⟨st, action, after⟩] = [] → after.due slot <:+ st.due slot := by
    intro none
    obtain ⟨bytes, more⟩ := grows
    rw [none, List.flatMap_nil, List.append_nil, ← more, List.append_assoc,
      List.append_cancel_left_eq] at balanced
    exact ⟨bytes, balanced⟩
  -- A call begins with the mutex, and only then is something new sent.
  by_cases lock : action.event = .lock
  · obtain ⟨party, event⟩ := action
    subst lock
    rw [sent_of_lock] at balanced shrinks ⊢
    cases waiting : (st.place party).unsent with
    | nil => exact .inl ⟨rfl, shrinks (by rw [waiting]; rfl)⟩
    | cons message rest =>
      -- A thread has one message at most.
      obtain rfl : rest = [] := by
        cases place : st.place party <;> simp_all [Place.unsent]
      refine .inr ⟨party, message, rfl, ?_⟩
      have free : st.due slot = [] ∧ after.received connection = st.received connection := by
        cases step with
        | move moves =>
          generalize st.place party = place at moves
          cases moves
        | lock unlocked => exact ⟨by rw [State.due, unlocked]; rfl, rfl⟩
      rw [waiting, free.1, free.2, List.append_nil, List.append_cancel_left_eq] at balanced
      simpa using balanced
  · have none := @sent_of_ne_lock _ st after action lock
    exact .inl ⟨none, shrinks none⟩

/-- In a run, only the last message can be on its way. -/
theorem late_of_run (run : Run Step origin trace final) (steady : Steady origin)
    (smooth : ∀ taken ∈ trace, Smooth taken) (quiet : Quiet origin)
    (stays : Stays slot connection origin)
    (still : ∀ taken ∈ trace, Stays slot connection taken.after) : Late slot trace final := by
  -- The client is there before each step, too.
  suffices both : Stays slot connection final ∧ Late slot trace final from both.2
  induction run with
  | start => exact ⟨stays, [], [], rfl, by simp, by rw [quiet.due]; exact List.nil_suffix⟩
  | @next trace before after action earlier step ih =>
    have smoothly := fun taken member => smooth taken (List.mem_append_left _ member)
    obtain ⟨there, done, last, whole, single, due⟩ := ih smoothly fun taken member =>
      still taken (List.mem_append_left _ member)
    have kept := Steady.of_run earlier steady smoothly
    have balanced := step.balanced kept.booked kept.wired kept.aimed there
      (smooth ⟨before, action, after⟩ (by simp)).writes
    refine ⟨still ⟨before, action, after⟩ (by simp), ?_⟩
    rw [Late, (sent_append _ _).1, List.map_append, whole]
    -- A new message begins when nothing is due, so the one before has come.
    rcases step.due balanced with ⟨none, fewer⟩ | ⟨party, message, one, owed⟩
    · exact ⟨done, last, by rw [none]; simp, single, fewer.trans due⟩
    · exact ⟨done ++ last, [message], by rw [one]; rfl, le_rfl, by rw [owed]; simp⟩

/-- What is heard is what the protocol can carry. -/
theorem sized_of_heard (run : Run Step origin trace final) {entry : Party Thread × List UInt8}
    (member : entry ∈ heard trace) : Sized entry.2 := by
  obtain ⟨⟨before, ⟨party, event⟩, after⟩, taken, shown⟩ := List.mem_flatMap.mp member
  have step : Step before ⟨party, event⟩ after := (run.split_at taken).1
  cases event with
  | read message =>
    obtain rfl := List.mem_singleton.mp shown
    -- A message is heard by a read only, and that checks its size.
    cases step with
    | move moves =>
      generalize before.place party = place at moves
      cases moves with
      | read sized => exact sized
  | _ => cases shown

end Lateness

section Rooms

variable [DecidableEq Thread] {final : State Thread}
  {trace : List (Transition (State Thread) (Action Thread))}

/-- From the beginning, each thread sends what it has read, in this order. -/
theorem sent_prefix_heard (run : Run Step (start : State Thread) trace final)
    (party : Party Thread) : messagesOf party (sent trace) <+: messagesOf party (heard trace) := by
  have kept := sent_of_run run party
  have none : ((start : State Thread).place party).unsent = [] := by cases party <;> rfl
  rw [none, List.nil_append] at kept
  exact ⟨_, kept⟩

/-- What is sent is what the protocol can carry. -/
theorem sized_of_sent (run : Run Step (start : State Thread) trace final)
    {entry : Party Thread × List UInt8} (member : entry ∈ sent trace) : Sized entry.2 := by
  obtain ⟨party, message⟩ := entry
  -- What a thread sends it has heard before.
  have listed : message ∈ messagesOf party (sent trace) :=
    List.mem_map.mpr ⟨(party, message), List.mem_filter.mpr ⟨member, by simp⟩, rfl⟩
  obtain ⟨entry, there, same⟩ := List.mem_map.mp ((sent_prefix_heard run party).subset listed)
  have fine : Sized entry.2 := sized_of_heard run (List.mem_of_mem_filter there)
  rwa [same] at fine

/-- What is known of every state of a run in which no write gives up and no number is reused. -/
theorem unheard_of_run (run : Run Step (start : State Thread) trace final)
    (smooth : ∀ taken ∈ trace, Smooth taken) : Unheard final ∧ Steady final := by
  induction run with
  | start => exact ⟨.start, .start, .start, .start⟩
  | @next trace before after action earlier step ih =>
    obtain ⟨unheard, steady⟩ := ih fun taken member => smooth taken (List.mem_append_left _ member)
    exact ⟨unheard.step steady.wired steady.aimed step,
      Steady.of_run (earlier.next step) ⟨.start, .start, .start⟩ smooth⟩

/-- A client who has come and stays has read all messages since then, but for the last one at most. -/
theorem read_of_run {earlier later : List (Transition (State Thread) (Action Thread))}
    {taken : Transition (State Thread) (Action Thread)} {slot : Nat} {connection : Connection}
    (run : Run Step (start : State Thread) (earlier ++ taken :: later) final)
    (smooth : ∀ next ∈ earlier ++ taken :: later, Smooth next)
    (claims : taken.action = ⟨.runServer, .claim⟩) (free : taken.before.clients slot = -1)
    (still : ∀ next ∈ taken :: later, Stays slot connection next.after)
    (fragments : List Fragment) :
    ∃ missing, missing.length ≤ 1 ∧ (Quiet final → missing = []) ∧
      (readMessages fragments (final.received connection)).messages ++ missing =
        (sent later).map Prod.snd := by
  obtain ⟨middle, begins, rest⟩ := run.split
  obtain ⟨rfl, step, goes⟩ := rest.uncons
  -- The newcomer finds an empty connection and no call under way.
  obtain ⟨unheard, steady⟩ := unheard_of_run begins fun next member =>
    smooth next (List.mem_append_left _ member)
  have here := smooth taken (by simp)
  have stays := still taken (by simp)
  rw [claims] at step
  obtain ⟨quiet, empty⟩ := step.admits unheard steady.booked free stays
  have unused : ∀ clientFd, taken.action.event = .accept clientFd →
      ∀ slot < maxClients, taken.before.clients slot ≠ clientFd := here.unused
  rw [claims] at unused
  have steady : Steady taken.after := ⟨steady.booked.step step,
    steady.wired.step steady.booked step unused, steady.aimed.step steady.booked step⟩
  have smoothly : ∀ next ∈ later, Smooth next := fun next member => smooth next (by simp [member])
  have staying : ∀ next ∈ later, Stays slot connection next.after := fun next member =>
    still next (List.mem_cons_of_mem _ member)
  -- What has come, with what is due, is all that was sent since then.
  have received := received_of_run goes steady smoothly stays staying
  obtain ⟨done, last, whole, single, due⟩ := late_of_run goes steady smoothly quiet stays staying
  -- Each of these messages was sent in this run, so it can be carried.
  have sized : ∀ message ∈ done ++ last, Sized message := by
    intro message member
    rw [← whole] at member
    obtain ⟨entry, there, rfl⟩ := List.mem_map.mp member
    refine sized_of_sent run ?_
    rw [(sent_append _ _).1, ← List.singleton_append, (sent_append _ _).1]
    simp [there]
  have flat : (sent later).flatMap (fun entry => frame entry.2) = (done ++ last).flatMap frame := by
    rw [← whole, List.flatMap_map]
  rw [empty, quiet.due, List.append_nil, List.nil_append, flat] at received
  rw [whole]
  by_cases none : final.due slot = []
  · -- Every frame has come as a whole.
    rw [none, List.append_nil] at received
    refine ⟨[], by simp, fun _ => rfl, ?_⟩
    rw [received, readMessages_frames fragments sized, List.append_nil]
  · -- The last message is still on its way.
    obtain _ | ⟨message, rest⟩ := last
    · exact absurd (List.suffix_nil.mp due) none
    · obtain rfl : rest = [] := by simpa using single
      refine ⟨[message], le_rfl, fun last => absurd (last.due slot) none, ?_⟩
      obtain ⟨part, split⟩ := due
      simp only [List.flatMap_cons, List.flatMap_nil, List.append_nil] at split
      rw [List.flatMap_append, List.flatMap_cons, List.flatMap_nil, List.append_nil, ← split,
        ← List.append_assoc, List.append_cancel_right_eq] at received
      obtain ⟨next, read⟩ := readMessages_frames_append fragments
        (fun message member => sized message (List.mem_append_left _ member)) part
      rw [received, read, readMessages_of_part next (sized message (by simp)) split none,
        List.append_nil]

/--
In every run in which no write gives up and no descriptor is reused too early: there is one order of
the lines, and the lines of each user are in it as they were typed. Every client who has got a slot
and stays has on the screen exactly the lines of this order since then, but for the last one at most,
and all of them when no call of `write_to_clients` is under way.
-/
theorem clients_agree (run : Run Step (start : State Thread) trace final)
    (smooth : ∀ taken ∈ trace, Smooth taken) {typed : Party Thread → List Line}
    (hears : ∀ party, messagesOf party (heard trace) <+: (typed party).map Line.packet) :
    ∃ order : List (Party Thread × Line),
      (∀ party, writtenBy party order <+: typed party) ∧
      ∀ earlier taken later slot connection, trace = earlier ++ taken :: later →
        taken.action = ⟨.runServer, .claim⟩ → taken.before.clients slot = -1 →
        (∀ next ∈ taken :: later, Stays slot connection next.after) → ∀ fragments,
        ∃ missing, missing.length ≤ 1 ∧ (Quiet final → missing = []) ∧
          screen fragments (final.received connection) ++ missing =
            (order.drop (sent earlier).length).map fun entry => entry.2.shown := by
  obtain ⟨order, same, orderly⟩ := exists_labelled (sent trace) fun party =>
    (sent_prefix_heard run party).trans (hears party)
  refine ⟨order, orderly, ?_⟩
  rintro earlier taken later slot connection rfl claims free still fragments
  -- The bytes of each client are read as these lines, in this order.
  obtain ⟨missing, few, none, read⟩ := read_of_run run smooth claims free still fragments
  refine ⟨missing.map fun buffer => buffer.takeWhile (· ≠ 0), by simpa using few,
    fun quiet => by rw [none quiet]; rfl, ?_⟩
  -- The step that lets the client in sends nothing.
  have quietly : sent [taken] = [] := by
    obtain ⟨before, action, after⟩ := taken
    obtain rfl : action = _ := claims
    rfl
  have since : (order.drop (sent earlier).length).map (Prod.map id Line.packet) = sent later := by
    rw [List.map_drop, same, (sent_append _ _).1, List.drop_left, ← List.singleton_append,
      (sent_append _ _).1, quietly, List.nil_append]
  rw [screen, ← List.map_append, read, ← since, List.map_map, List.map_map]
  refine List.map_congr_left fun entry _ => ?_
  exact entry.2.takeWhile_packet

/-- The line `a: b`. -/
def sampleLine : Line := ⟨[97], [98], by decide, by decide⟩

/-- A client is let in, types a line, and has it on its own screen. -/
theorem clients_agree_first : ∃ trace final, Run Step (start : State Unit) trace final ∧
    screen [] (final.received 0) = [sampleLine.shown] ∧
    ∃ order : List (Party Unit × Line), (∀ party, writtenBy party order <+: [sampleLine]) ∧
      ∃ missing, missing.length ≤ 1 ∧
        [sampleLine.shown] ++ missing = order.map fun entry => entry.2.shown := by
  have listening := Run.start.next (@Step.move Unit _ start .runServer _ _ (.listen rfl))
  have accepted := listening.next (@Step.accept _ _ _ 4 rfl (by decide) rfl)
  have locked := accepted.next (@Step.lock _ _ _ .runServer _ rfl rfl)
  have claimed := locked.next (@Step.claim _ _ _ 4 rfl (by decide) (by decide))
  have unlocked := (claimed.next (.count rfl)).next (@Step.unlock _ _ _ .runServer _ rfl)
  have created := unlocked.next (@Step.create _ _ _ () _ rfl rfl)
  have reading := created.next (@Step.move _ _ _ (.processClient ()) _ _ (.enter rfl))
  have sending := reading.next (@Step.move _ _ _ (.processClient ()) (.read sampleLine.packet) _
    (.read (by decide)))
  have visiting := sending.next (@Step.lock _ _ _ (.processClient ()) _ rfl rfl)
  have size := visiting.next (@Step.begin _ _ _ () _ _ _ rfl (by decide) (by decide))
  have put := size.next (@Step.put _ _ _ () _ _ 4 _ _ _ _ 0 rfl rfl (by decide) (by decide))
  have payload := put.next (@Step.move _ _ _ (.processClient ()) _ _ .payload)
  have final := payload.next
    (@Step.put _ _ _ () _ _ 5 _ _ _ _ 0 rfl rfl (by decide) (by decide))
  have first : search (fun _ => -1) = 0 := by decide
  have printed : screen [] (frame sampleLine.packet) = [sampleLine.shown] := by
    have read := @readMessages_frames [sampleLine.packet] [] (by decide)
    rw [List.flatMap_singleton] at read
    rw [screen, read]
    rfl
  obtain ⟨order, orderly, reads⟩ := @clients_agree Unit _ _ _ final
    (by simp [smooth_iff, State.goto, start]) (fun _ => [sampleLine]) (by
      intro party
      show messagesOf party [(.processClient (), sampleLine.packet)] <+: _
      rw [show [(Party.processClient (), sampleLine.packet)] =
        [sampleLine.packet].map (Party.processClient (), ·) from rfl, messagesOf_map]
      split
      · exact List.prefix_rfl
      · exact List.nil_prefix)
  obtain ⟨missing, few, -, read⟩ := reads [_, _, _] _ _ 0 0 rfl rfl rfl
    (by simp [stays_iff, State.goto, start, first]) []
  refine ⟨_, _, final, printed, order, orderly, missing, few, ?_⟩
  rw [← printed]
  exact read

end Rooms

end SystemProgramming.Chatroom
