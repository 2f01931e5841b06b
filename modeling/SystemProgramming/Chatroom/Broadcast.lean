import SystemProgramming.Chatroom.Descriptors

/-! All clients who stay are sent the same frames, in the order in which the mutex is locked. -/

namespace SystemProgramming.Chatroom

open Foundations

variable {Thread : Type*}

/-- What of a frame is written behind the part that is being written. -/
def Part.later : Part → List UInt8 → List UInt8
  | size, message => message
  | payload, _ => []

/-- What a call of `write_to_clients` has still to write for a slot. -/
def Place.owes (slot : Nat) : Place → List UInt8
  | visiting _ message current => if current ≤ slot then frame message else []
  | writing _ message current part _ rest =>
    if current < slot then frame message
    else if current = slot then rest ++ part.later message
    else []
  | _ => []

/-- What the call under way has still to write for a slot. -/
def due (mutex : Option (Party Thread)) (place : Party Thread → Place) (slot : Nat) : List UInt8 :=
  mutex.elim [] fun party => (place party).owes slot

/-- The same for the threads of a state. -/
abbrev State.due (st : State Thread) (slot : Nat) : List UInt8 :=
  Chatroom.due st.mutex st.place slot

/-- The message that a thread has read and not begun to send. -/
def Place.unsent : Place → List (List UInt8)
  | sending _ message => [message]
  | _ => []

/-- The messages with their threads, in the order in which the mutex is locked to send them. -/
def sent (trace : List (Transition (State Thread) (Action Thread))) :
    List (Party Thread × List UInt8) :=
  trace.flatMap fun taken =>
    match taken.action.event with
    | .lock => (taken.before.place taken.action.party).unsent.map (taken.action.party, ·)
    | _ => []

/-- The messages with their threads, in the order in which they are read. -/
def heard (trace : List (Transition (State Thread) (Action Thread))) :
    List (Party Thread × List UInt8) :=
  trace.flatMap fun taken =>
    match taken.action.event with
    | .read message => [(taken.action.party, message)]
    | _ => []

/-- The messages of one thread. -/
def messagesOf [DecidableEq Thread] (party : Party Thread)
    (messages : List (Party Thread × List UInt8)) : List (List UInt8) :=
  (messages.filter fun entry => entry.1 = party).map Prod.snd

/-- What is sent and heard in one trace and then in another. -/
theorem sent_append (trace later : List (Transition (State Thread) (Action Thread))) :
    sent (trace ++ later) = sent trace ++ sent later ∧
      heard (trace ++ later) = heard trace ++ heard later :=
  ⟨List.flatMap_append, List.flatMap_append⟩

/-- The messages of one thread in two lists. -/
theorem messagesOf_append [DecidableEq Thread] (party : Party Thread)
    (messages later : List (Party Thread × List UInt8)) :
    messagesOf party (messages ++ later) = messagesOf party messages ++ messagesOf party later := by
  rw [messagesOf, List.filter_append, List.map_append]
  rfl

/-- The messages of one thread, where all are those of one thread. -/
theorem messagesOf_map [DecidableEq Thread] (party other : Party Thread)
    (messages : List (List UInt8)) :
    messagesOf party (messages.map (other, ·)) = if other = party then messages else [] := by
  split
  next same => simp [messagesOf, List.filter_map, Function.comp_def, same]
  next apart => simp [messagesOf, List.filter_map, Function.comp_def, apart]

/-- A client is connected, and a slot has its descriptor. -/
@[mk_iff] structure Stays (slot : Nat) (connection : Connection) (st : State Thread) : Prop where
  within : slot < maxClients
  taken : st.clients slot ≠ -1
  connected : st.sockets (st.clients slot) = some connection

/-- No write gives up, and no descriptor comes that is still in the table. -/
@[mk_iff] structure Smooth (taken : Transition (State Thread) (Action Thread)) : Prop where
  writes : taken.action.event ≠ .zero
  unused : ∀ clientFd, taken.action.event = .accept clientFd →
    ∀ slot < maxClients, taken.before.clients slot ≠ clientFd

/-- The slot and the descriptor of a frame that is being written. -/
def Place.aim : Place → Option (Nat × Int)
  | writing _ _ slot _ socket _ => some (slot, socket)
  | _ => none

/-- Frames are written to the descriptors in their slots. -/
def Aimed (st : State Thread) : Prop :=
  ∀ party slot socket, (st.place party).aim = some (slot, socket) →
    slot < maxClients ∧ st.clients slot = socket ∧ socket ≠ -1

section Places

variable {clients : Nat → Int} {endSession : Bool} {place next : Place} {event : Event}
  {slot : Nat} {socket : Int}

/-- A frame that is written is one that a call has come to. -/
theorem Place.reached_of_aim (aim : place.aim = some (slot, socket)) :
    place.reached = some (slot + 1) := by
  unfold Place.aim at aim
  split at aim
  · cases aim
    rfl
  · cases aim

/-- A thread that begins a call has not begun a frame. -/
theorem Place.aim_of_lock (lock : place.lock = some next) : next.aim = none := by
  rcases Place.lock_cases lock with ⟨_, _, rfl⟩ | ⟨_, _, _, rfl⟩ | ⟨_, _, rfl⟩ <;> rfl

/-- A thread that unlocks the mutex writes no frame. -/
theorem Place.aim_of_unlock (unlock : place.unlock = some next) : next.aim = none := by
  cases shown : next.aim with
  | none => rfl
  | some target =>
    have reached := @Place.reached_of_aim _ target.1 target.2 shown
    rw [Place.reached_of_unlock unlock] at reached
    cases reached

/-- A frame goes on to the descriptor in its slot. -/
theorem Moves.aim (moves : Moves clients endSession place event next)
    (aimed : ∀ slot socket, place.aim = some (slot, socket) → clients slot = socket) :
    next.aim = place.aim ∨ next.aim = none := by
  cases moves with
  | @payload clientId slot message socket =>
    left
    rw [Place.aim, Place.aim, aimed slot socket rfl]
  | retry => exact .inl rfl
  | _ => exact .inr rfl

/-- A step of a thread alone changes nothing of what it has to write. -/
theorem Moves.owes (moves : Moves clients endSession place event next) (writes : event ≠ .zero)
    (taken : clients slot ≠ -1) : next.owes slot = place.owes slot := by
  cases moves with
  | @skip _ current _ _ free =>
    -- The slot that is skipped is free, so it is another one.
    have apart : current ≠ slot := by
      intro same
      exact taken (same ▸ free)
    have same : current + 1 ≤ slot ↔ current ≤ slot := by omega
    simp only [Place.owes, same]
  | @done _ current =>
    -- Nothing is left to write for the slot itself.
    simp only [Place.owes, Part.later, List.append_nil]
    split
    · rw [if_pos (by omega)]
    · rw [if_neg (by omega), ite_self]
  | payload => simp [Place.owes, Part.later]
  | zero => exact absurd rfl writes
  | _ => rfl

/-- A thread reads a message when it has none to send. -/
theorem Moves.unsent (moves : Moves clients endSession place event next) :
    (∃ message, event = .read message ∧ place.unsent = [] ∧ next.unsent = [message]) ∨
      ((∀ message, event ≠ .read message) ∧ next.unsent = place.unsent) := by
  cases moves with
  | @read _ message => exact .inl ⟨message, rfl, rfl, rfl⟩
  | _ => exact .inr ⟨fun _ => nofun, rfl⟩

/-- A thread that locks the mutex owes its message to every slot, if it has one. -/
theorem Place.owes_of_lock (lock : place.lock = some next) :
    next.owes slot = place.unsent.flatMap frame ∧ next.unsent = [] := by
  rcases Place.lock_cases lock with ⟨_, rfl, rfl⟩ | ⟨_, _, rfl, rfl⟩ | ⟨_, rfl, rfl⟩
  · exact ⟨rfl, rfl⟩
  · simp [Place.owes, Place.unsent]
  · exact ⟨rfl, rfl⟩

/-- A thread that unlocks the mutex has no message. -/
theorem Place.unsent_of_unlock (unlock : place.unlock = some next) :
    next.unsent = place.unsent := by
  rcases Place.unlock_cases unlock with ⟨_, rfl, rfl⟩ | ⟨rfl, rfl⟩ | ⟨_, _, _, _, rfl, rfl⟩ |
    ⟨rfl, rfl⟩ <;> rfl

/-- A thread that unlocks the mutex has come to all slots. -/
theorem Place.owes_of_unlock (unlock : place.unlock = some next) (within : slot < maxClients) :
    place.owes slot = [] := by
  rcases Place.unlock_cases unlock with ⟨_, rfl, _⟩ | ⟨rfl, _⟩ | ⟨_, _, _, ended, rfl, _⟩ | ⟨rfl, _⟩
  · rfl
  · rfl
  · rw [Place.owes, if_neg (by omega)]
  · rfl

/-- A call that is not under way owes nothing. -/
theorem Place.owes_of_not_reached (none : place.reached = none) : place.owes slot = [] := by
  cases place with
  | visiting | writing => cases none
  | _ => rfl

end Places

/-- No frame is written at the beginning. -/
theorem Aimed.start : Aimed (start : State Thread) := by
  intro party slot socket aim
  cases party <;> cases aim

section Debts

variable {st after : State Thread} {action : Action Thread} {slot : Nat} {connection : Connection}

/-- What a step sends to a client who stays, with what it leaves due, is what was due before. -/
def Balanced (slot : Nat) (connection : Connection)
    (taken : Transition (State Thread) (Action Thread)) : Prop :=
  taken.after.received connection ++ taken.after.due slot =
    taken.before.received connection ++ taken.before.due slot ++
      (sent [taken]).flatMap fun entry => frame entry.2

/-- A call begins where the mutex is locked. -/
theorem sent_of_ne_lock (lock : action.event ≠ .lock) : sent [⟨st, action, after⟩] = [] := by
  simp only [sent, List.flatMap_cons, List.flatMap_nil, List.append_nil]

/-- A thread that locks the mutex begins to send its message, if it has one. -/
theorem sent_of_lock {party : Party Thread} : sent [⟨st, ⟨party, .lock⟩, after⟩] =
    (st.place party).unsent.map (party, ·) := by
  simp only [sent, List.flatMap_cons, List.flatMap_nil, List.append_nil]

/-- A step that sends some of what is due, and begins no call. -/
theorem balanced_of_bytes (bytes : List UInt8)
    (received : after.received connection = st.received connection ++ bytes)
    (due : bytes ++ after.due slot = st.due slot) (lock : action.event ≠ .lock) :
    Balanced slot connection ⟨st, action, after⟩ := by
  simp only [Balanced, received, sent_of_ne_lock lock, List.flatMap_nil, List.append_nil,
    List.append_assoc, due]

/-- A step that neither writes to a client nor begins a call. -/
theorem balanced_of_quiet (received : after.received connection = st.received connection)
    (due : after.due slot = st.due slot) (lock : action.event ≠ .lock) :
    Balanced slot connection ⟨st, action, after⟩ :=
  balanced_of_bytes [] (received.trans (List.append_nil _).symm) due lock

/-- While a thread holds the mutex, what is due is what it owes. -/
theorem due_of_locked {party : Party Thread} (booked : st.Booked)
    (locked : (st.place party).locked = true) : st.due slot = (st.place party).owes slot := by
  rw [State.due, due, (booked.holder party).mp locked, Option.elim_some]

/-- A frame that begins is due in its slot as it was before. -/
theorem owes_begin {clientId current : Nat} {message : List UInt8} {socket : Int} :
    (Place.writing clientId message current .size socket (sizeBuf message.length)).owes slot =
      (Place.visiting clientId message current).owes slot := by
  simp only [Place.owes, Part.later]
  rcases Nat.lt_trichotomy current slot with below | rfl | above
  · rw [if_pos below, if_pos below.le]
  · rw [if_neg (Nat.lt_irrefl _), if_pos rfl, if_pos le_rfl, frame]
  · rw [if_neg (by omega), if_neg (by omega), if_neg (by omega)]

/-- Bytes that are written to a slot are the next ones that are owed to it. -/
theorem owes_put {clientId amount : Nat} {message rest : List UInt8} {part : Part} {socket : Int} :
    rest.take amount ++
        (Place.writing clientId message slot part socket (rest.drop amount)).owes slot =
      (Place.writing clientId message slot part socket rest).owes slot := by
  simp only [Place.owes, Nat.lt_irrefl, if_false, if_true]
  rw [← List.append_assoc, List.take_append_drop]

end Debts

section Steps

variable [DecidableEq Thread] {st after : State Thread} {action : Action Thread}

/-- Where the frames that are written are the same, they go to the same slots. -/
theorem Aimed.keep (aimed : Aimed st) (booked : st.Booked) (step : Step st action after)
    (kept : ∀ party slot socket, (after.place party).aim = some (slot, socket) →
      (st.place party).aim = some (slot, socket)) : Aimed after := by
  intro party slot socket aim
  have old := kept party slot socket aim
  rw [step.change.clients_eq booked (Place.reached_of_aim old)]
  exact aimed party slot socket old

/-- Every step keeps frames in their slots. -/
theorem Aimed.step (aimed : Aimed st) (booked : st.Booked) (step : Step st action after) :
    Aimed after := by
  have whole := step
  cases step with
  | signal => exact aimed.keep booked whole fun _ _ _ aim => aim
  | @move party event next moves =>
    refine aimed.keep booked whole fun other slot socket aim => ?_
    refine view_of_update Place.aim (moves.aim fun slot socket aim => ?_) aim
    exact (aimed party slot socket aim).2.1
  | lock _ lock =>
    exact aimed.keep booked whole fun _ _ _ aim =>
      view_of_update Place.aim (.inr (Place.aim_of_lock lock)) aim
  | unlock unlock =>
    exact aimed.keep booked whole fun _ _ _ aim =>
      view_of_update Place.aim (.inr (Place.aim_of_unlock unlock)) aim
  | create =>
    refine aimed.keep booked whole fun other slot socket aim => ?_
    simp only [State.goto] at aim
    have earlier := view_of_update Place.aim (.inr rfl) aim
    exact view_of_update Place.aim (.inr rfl) earlier
  | accept | claim | miss | count | refuse | close | clear | uncount =>
    refine aimed.keep booked whole fun other slot socket aim => ?_
    simp only [State.goto] at aim
    exact view_of_update Place.aim (.inr rfl) aim
  | put here =>
    refine aimed.keep booked whole fun other slot socket aim => ?_
    simp only [State.goto] at aim
    refine view_of_update Place.aim (.inl ?_) aim
    rw [here]
    rfl
  | @begin thread clientId slot message here within taken =>
    intro party target socket aim
    simp only [State.goto] at aim
    by_cases same : party = .processClient thread
    · -- The frame goes to the descriptor that was found in the slot.
      rw [same, Function.update_self] at aim
      cases aim
      exact ⟨within, rfl, taken⟩
    · rw [Function.update_of_ne same] at aim
      exact aimed party target socket aim

section Receivers

variable {slot : Nat} {connection : Connection}

/-- A thread that goes on with the same debts changes nothing of what is due. -/
theorem due_update {mutex : Option (Party Thread)} {place : Party Thread → Place}
    {party : Party Thread} {next : Place} (same : next.owes slot = (place party).owes slot) :
    due mutex (Function.update place party next) slot = due mutex place slot := by
  cases mutex with
  | none => rfl
  | some holder =>
    simp only [due, Option.elim_some]
    rw [Function.apply_update (fun _ => Place.owes slot), same, Function.update_eq_self]

/-- What is due is what the holder of the mutex owes where it goes on. -/
theorem due_holder {mutex : Option (Party Thread)} {place : Party Thread → Place}
    {party : Party Thread} {next : Place} (held : mutex = some party) :
    due mutex (Function.update place party next) slot = next.owes slot := by
  rw [due, held, Option.elim_some, Function.update_self]

/-- Every step is balanced for a client who stays. -/
theorem Step.balanced (step : Step st action after) (booked : st.Booked) (wired : Wired st)
    (aimed : Aimed st) (stays : Stays slot connection st)
    (writes : action.event ≠ .zero) : Balanced slot connection ⟨st, action, after⟩ := by
  cases step with
  | signal => exact balanced_of_quiet rfl rfl (by simp)
  | move moves =>
    exact balanced_of_quiet rfl (due_update (moves.owes writes stays.taken)) moves.quiet.2.1
  | @lock party next free lock =>
    -- Only the threads that send owe something then, a frame to every slot.
    have nothing : st.due slot = [] := by rw [State.due, due, free, Option.elim_none]
    show st.received connection ++ due (some party) (Function.update st.place party next) slot =
      st.received connection ++ st.due slot ++ (sent [_]).flatMap _
    rw [due_holder rfl, nothing, List.append_nil, sent_of_lock, List.flatMap_map,
      (Place.owes_of_lock lock).1]
  | @unlock party next unlock =>
    have locked := (Place.unlocks_of_unlock unlock).locked
    refine balanced_of_quiet rfl ?_ (by simp)
    rw [due_of_locked booked locked, Place.owes_of_unlock unlock stays.within]
    rfl
  | accept here | claim here | count here | refuse here | close here | clear here | uncount here
  | miss here =>
    refine balanced_of_quiet rfl (due_update ?_) (by simp)
    rw [here]
    rfl
  | create here absent =>
    refine balanced_of_quiet rfl ((due_update ?_).trans (due_update ?_)) (by simp)
    · simp [State.goto, absent, Place.owes]
    · rw [here]
      rfl
  | begin here _ _ =>
    refine balanced_of_quiet rfl (due_update ?_) (by simp)
    rw [here]
    exact owes_begin
  | @put thread clientId current amount message rest part socket other here connected _ _ =>
    obtain ⟨within, same, taken⟩ := aimed (.processClient thread) current socket
      (by rw [here, Place.aim])
    have locked : (st.place (.processClient thread)).locked = true := by rw [here, Place.locked]
    subst same
    by_cases target : current = slot
    · -- The bytes are the next ones that are due.
      subst target
      obtain rfl : other = connection := by
        rw [stays.connected] at connected
        exact (Option.some.inj connected).symm
      refine balanced_of_bytes _ (Function.update_self ..) ?_ (by simp)
      rw [due_of_locked booked locked, here, ← owes_put]
      exact congrArg _ (due_holder ((booked.holder _).mp locked))
    · -- Another connection gets the bytes.
      have apart : connection ≠ other := by
        intro alike
        have sockets := wired.injective _ _ _ (alike ▸ stays.connected) connected
        exact target (wired.apart current within slot stays.within taken sockets.symm)
      refine balanced_of_quiet (Function.update_of_ne apart _ _) (due_update ?_) (by simp)
      rw [here]
      simp only [Place.owes, if_neg target]

end Receivers

section Senders

variable {party : Party Thread}

/-- What a step does to the message that a thread has read and not begun to send. -/
def Ordered (party : Party Thread) (taken : Transition (State Thread) (Action Thread)) : Prop :=
  messagesOf party (sent [taken]) ++ (taken.after.place party).unsent =
    (taken.before.place party).unsent ++ messagesOf party (heard [taken])

/-- A thread that neither reads nor sends keeps what it has. -/
theorem ordered_of_quiet (lock : action.event ≠ .lock)
    (read : ∀ message, action.event ≠ .read message)
    (same : (after.place party).unsent = (st.place party).unsent) :
    Ordered party ⟨st, action, after⟩ := by
  have deaf : heard [⟨st, action, after⟩] = [] := by
    simp only [heard, List.flatMap_cons, List.flatMap_nil, List.append_nil]
  simp [Ordered, sent_of_ne_lock lock, deaf, same, messagesOf]

/-- A thread that goes on with the same message. -/
theorem unsent_update {place : Party Thread → Place}
    {other : Party Thread} {next : Place} (same : next.unsent = (place other).unsent) :
    (Function.update place other next party).unsent = (place party).unsent := by
  rw [Function.apply_update (fun _ => Place.unsent), same, Function.update_eq_self]

/-- Every step keeps the messages of a thread in order. -/
theorem Step.ordered (step : Step st action after) (party : Party Thread) :
    Ordered party ⟨st, action, after⟩ := by
  cases step with
  | signal => exact ordered_of_quiet (by simp) (by simp) rfl
  | @move other event next moves =>
    rcases moves.unsent with ⟨message, rfl, old, new⟩ | ⟨read, same⟩
    · -- The thread has read a message, and the others have not.
      have silent : ∀ after, sent [⟨st, ⟨other, .read message⟩, after⟩] = [] :=
        fun _ => sent_of_ne_lock (by simp)
      show messagesOf party (sent [_]) ++ (Function.update st.place other next party).unsent =
        (st.place party).unsent ++ messagesOf party [(other, message)]
      rw [silent]
      by_cases apart : party = other
      · subst apart
        simp [messagesOf, old, new]
      · simp [messagesOf, apart, Ne.symm apart]
    · exact ordered_of_quiet moves.quiet.2.1 read (unsent_update same)
  | @lock other next _ lock =>
    show messagesOf party (sent [_]) ++ (Function.update st.place other next party).unsent =
      (st.place party).unsent ++ messagesOf party []
    rw [sent_of_lock, messagesOf_map]
    by_cases same : party = other
    · subst same
      rw [if_pos rfl, Function.update_self, (@Place.owes_of_lock _ _ 0 lock).2]
      rfl
    · rw [if_neg (Ne.symm same), Function.update_of_ne same, List.nil_append]
      exact (List.append_nil _).symm
  | unlock unlock =>
    exact ordered_of_quiet (by simp) (by simp) (unsent_update (Place.unsent_of_unlock unlock))
  | accept here | claim here | count here | refuse here | close here | clear here | uncount here
  | miss here | begin here _ _ | put here _ _ _ =>
    refine ordered_of_quiet (by simp) (by simp) (unsent_update ?_)
    rw [here]
    rfl
  | create here absent =>
    refine ordered_of_quiet (by simp) (by simp) ((unsent_update ?_).trans (unsent_update ?_))
    · simp [State.goto, absent, Place.unsent]
    · rw [here]
      rfl

end Senders

end Steps

/-- No call of `write_to_clients` is under way. -/
def Quiet (st : State Thread) : Prop := ∀ party, (st.place party).reached = none

/-- Then nothing is due. -/
theorem Quiet.due {st : State Thread} (quiet : Quiet st) (slot : Nat) : st.due slot = [] := by
  rw [State.due, Chatroom.due]
  cases st.mutex with
  | none => rfl
  | some holder => exact Place.owes_of_not_reached (quiet holder)

section Runs

variable [DecidableEq Thread] {origin final : State Thread}
  {earlier trace : List (Transition (State Thread) (Action Thread))}

/-- What the order of the frames rests on. -/
structure Steady (st : State Thread) : Prop where
  booked : st.Booked
  wired : Wired st
  aimed : Aimed st

/-- A run without reuse keeps it. -/
theorem Steady.of_run (run : Run Step origin trace final) (steady : Steady origin)
    (smooth : ∀ taken ∈ trace, Smooth taken) : Steady final := by
  induction run with
  | start => exact steady
  | @next trace before after action _ step ih =>
    have past := ih fun taken member => smooth taken (List.mem_append_left _ member)
    have now := smooth ⟨before, action, after⟩ (by simp)
    exact ⟨past.booked.step step, past.wired.step past.booked step now.unused,
      past.aimed.step past.booked step⟩

/-- In a run, a client who stays is sent what the calls that begin in it send. -/
theorem received_of_run {slot : Nat} {connection : Connection}
    (run : Run Step origin trace final) (steady : Steady origin)
    (smooth : ∀ taken ∈ trace, Smooth taken) (stays : Stays slot connection origin)
    (still : ∀ taken ∈ trace, Stays slot connection taken.after) :
    final.received connection ++ final.due slot =
      origin.received connection ++ origin.due slot ++
        (sent trace).flatMap fun entry => frame entry.2 := by
  -- The client is there before each step, too.
  suffices both : Stays slot connection final ∧ final.received connection ++ final.due slot =
      origin.received connection ++ origin.due slot ++
        (sent trace).flatMap fun entry => frame entry.2 from both.2
  induction run with
  | start => exact ⟨stays, (List.append_nil _).symm⟩
  | @next trace before after action earlier step ih =>
    have smoothly := fun taken member => smooth taken (List.mem_append_left _ member)
    obtain ⟨there, past⟩ := ih smoothly fun taken member =>
      still taken (List.mem_append_left _ member)
    have kept := Steady.of_run earlier steady smoothly
    have now := step.balanced kept.booked kept.wired kept.aimed there
      (smooth ⟨before, action, after⟩ (by simp)).writes
    refine ⟨still ⟨before, action, after⟩ (by simp), ?_⟩
    rw [(sent_append _ _).1, List.flatMap_append, ← List.append_assoc, ← past]
    exact now

/-- In a run, a thread begins to send what it has read, in this order. -/
theorem sent_of_run (run : Run Step origin trace final) (party : Party Thread) :
    messagesOf party (sent trace) ++ (final.place party).unsent =
      (origin.place party).unsent ++ messagesOf party (heard trace) := by
  induction run with
  | start => simp [sent, heard, messagesOf]
  | @next trace before after action _ step ih =>
    rw [(sent_append _ _).1, (sent_append _ _).2, messagesOf_append, messagesOf_append,
      List.append_assoc, ← List.append_assoc _ _ (messagesOf party (heard [_])), ← ih,
      List.append_assoc]
    exact congrArg _ (step.ordered party)

/--
In a stretch of a run in which no write gives up and no descriptor is reused too early, all clients
who stay receive the frames of the same messages, each as a whole, but for what the call under way at
its beginning or its end has still to write; between calls, they receive exactly these frames. The
messages of each thread are among them in the order in which it reads them.
-/
theorem broadcasts_in_order (before : Run Step (start : State Thread) earlier origin)
    (run : Run Step origin trace final) (smooth : ∀ taken ∈ earlier ++ trace, Smooth taken) :
    (∀ slot connection, Stays slot connection origin →
      (∀ taken ∈ trace, Stays slot connection taken.after) →
      final.received connection ++ final.due slot =
        origin.received connection ++ origin.due slot ++
          (sent trace).flatMap fun entry => frame entry.2) ∧
    (Quiet origin → Quiet final → ∀ slot connection, Stays slot connection origin →
      (∀ taken ∈ trace, Stays slot connection taken.after) →
      final.received connection =
        origin.received connection ++ (sent trace).flatMap fun entry => frame entry.2) ∧
    ∀ party, messagesOf party (sent trace) ++ (final.place party).unsent =
      (origin.place party).unsent ++ messagesOf party (heard trace) := by
  -- What holds in every reachable state holds at the origin of the second run.
  have steady : Steady origin := Steady.of_run before ⟨.start, .start, .start⟩ fun taken member =>
    smooth taken (List.mem_append_left _ member)
  have smoothly : ∀ taken ∈ trace, Smooth taken := fun taken member =>
    smooth taken (List.mem_append_right _ member)
  refine ⟨fun slot connection stays still => ?_, fun first last slot connection stays still => ?_,
    sent_of_run run⟩
  · exact received_of_run run steady smoothly stays still
  · have received := received_of_run run steady smoothly stays still
    rwa [first.due, last.due, List.append_nil, List.append_nil] at received

/-- A client is let in and sends a message, the size of which is written back to it. -/
theorem broadcasts_in_order_first : ∃ final : State Unit, final.received 0 = sizeBuf 1 ∧
    final.received 0 ++ final.due 0 = frame [7] := by
  have listening := Run.start.next (@Step.move Unit _ start .runServer _ _ (.listen rfl))
  have accepted := listening.next (@Step.accept _ _ _ 4 rfl (by decide) rfl)
  have locked := accepted.next (@Step.lock _ _ _ .runServer _ rfl rfl)
  have claimed := locked.next (@Step.claim _ _ _ 4 rfl (by decide) (by decide))
  have unlocked := (claimed.next (.count rfl)).next (@Step.unlock _ _ _ .runServer _ rfl)
  have origin := unlocked.next (@Step.create _ _ _ () _ rfl rfl)
  -- From here on, the client stays.
  have stay : ∀ {trace st}, Run Step (start : State Unit) trace st → Run Step st [] st :=
    fun _ => .start
  have reading := (stay origin).next (@Step.move _ _ _ (.processClient ()) _ _ (.enter rfl))
  have sending := reading.next
    (@Step.move _ _ _ (.processClient ()) (.read [7]) _ (.read (by decide)))
  have visiting := sending.next (@Step.lock _ _ _ (.processClient ()) _ rfl rfl)
  have writing := visiting.next (@Step.begin _ _ _ () _ _ _ rfl (by decide) (by decide))
  have final := writing.next (@Step.put _ _ _ () _ _ 4 _ _ _ _ 0 rfl rfl (by decide) (by decide))
  have first : search (fun _ => -1) = 0 := by decide
  have received := (broadcasts_in_order origin final (by simp [smooth_iff, State.goto, start])).1 0 0
    ⟨by decide, by decide, rfl⟩ (by simp [stays_iff, State.goto, start, first])
  exact ⟨_, by decide, received⟩

end Runs

end SystemProgramming.Chatroom
