import Mathlib.Data.Finset.Card
import Mathlib.Logic.Function.Basic
import SystemProgramming.Chatroom.Messages
import SystemProgramming.Foundations.Runs

/-!
The threads of the chat server and what they share: the table of clients, its counter, the mutex, and
the open descriptors.
-/

namespace SystemProgramming.Chatroom

open Foundations

/-- `MAX_CLIENTS`. -/
abbrev maxClients : Nat := 8

/-- A connection, named by the number of connections that were accepted before it. -/
abbrev Connection := Nat

/-- The main thread in `run_server`, or a thread in `process_client`. -/
inductive Party (Thread : Type*) where
  | runServer
  | processClient (thread : Thread)
  deriving DecidableEq

/-- The two writes that make up a frame. -/
inductive Part where
  | size
  | payload
  deriving DecidableEq, Repr

/-- Where a thread is, and its local variables. -/
inductive Place where
  /-- `run_server`, at the test of `endSession`. -/
  | listening
  | accepting
  /-- `accept` has returned `client_fd`. -/
  | accepted (clientFd : Int)
  /-- The mutex is locked and `clientsCount` not tested. -/
  | admitting (clientFd : Int)
  /-- The slot is taken and `clientsCount` not increased. -/
  | counting (i : Nat)
  | admitted (i : Nat)
  /-- The mutex is unlocked and the thread not created. -/
  | creating (i : Nat)
  /-- The connection is shut down, and the mutex still locked. -/
  | refused
  | stopped
  /-- A thread that was not created. -/
  | absent
  /-- `process_client`, at the test of `retval` and `endSession`. -/
  | checking (clientId : Nat)
  | reading (clientId : Nat)
  /-- A message was read; `write_to_clients` waits for the mutex. -/
  | sending (clientId : Nat) (message : List UInt8)
  /-- `write_to_clients` has come to a slot. -/
  | visiting (clientId : Nat) (message : List UInt8) (slot : Nat)
  /-- A write to a descriptor, with the bytes it has not written. -/
  | writing (clientId : Nat) (message : List UInt8) (slot : Nat) (part : Part) (socket : Int)
      (rest : List UInt8)
  | leaving (clientId : Nat)
  /-- The descriptor is closed and the mutex not locked. -/
  | closed (clientId : Nat)
  | clearing (clientId : Nat)
  /-- The slot is free and `clientsCount` not decreased. -/
  | cleared
  | uncounted
  | finished
  deriving DecidableEq, Repr

/--
What the threads share, and around them the open descriptors with their connections, what was written
to every connection, and the connections to which frames were begun since the mutex was last locked.
-/
structure State (Thread : Type*) where
  clients : Nat → Int
  clientsCount : Int
  endSession : Bool
  mutex : Option (Party Thread)
  place : Party Thread → Place
  sockets : Int → Option Connection
  connections : Nat
  received : Connection → List UInt8
  addressed : List (Option Connection)

/-- What a thread does in one step. -/
inductive Event where
  | signal
  | test
  | accept (clientFd : Int)
  | lock
  | unlock
  | claim
  | miss
  | count
  | refuse
  | create
  | createFailed
  | read (message : List UInt8)
  | hangup
  | skip
  | begin
  | put (amount : Nat)
  | payload
  | done
  | zero
  | retry
  | close
  | clear
  | uncount
  deriving DecidableEq, Repr

/-- A step of one thread. -/
structure Action (Thread : Type*) where
  party : Party Thread
  event : Event
  deriving DecidableEq

section Threads

/-- The index at which the search of `run_server` for a free slot ends. -/
def search (clients : Nat → Int) : Nat := (List.range maxClients).findIdx fun i => clients i = -1

/-- Where `pthread_mutex_lock` leads. -/
def Place.lock : Place → Option Place
  | accepted clientFd => some (admitting clientFd)
  | sending clientId message => some (visiting clientId message 0)
  | closed clientId => some (clearing clientId)
  | _ => none

/-- Where `pthread_mutex_unlock` leads. -/
def Place.unlock : Place → Option Place
  | admitted i => some (creating i)
  | refused => some listening
  | visiting clientId _ slot => if slot < maxClients then none else some (checking clientId)
  | uncounted => some finished
  | _ => none

/-- The places at which a thread waits for the mutex, and where it goes on. -/
theorem Place.lock_cases {place next : Place} (lock : place.lock = some next) :
    (∃ clientFd, place = .accepted clientFd ∧ next = .admitting clientFd) ∨
    (∃ clientId message, place = .sending clientId message ∧
      next = .visiting clientId message 0) ∨
    ∃ clientId, place = .closed clientId ∧ next = .clearing clientId := by
  cases place with
  | accepted clientFd => exact .inl ⟨clientFd, rfl, (Option.some.inj lock).symm⟩
  | sending clientId message =>
    exact .inr (.inl ⟨clientId, message, rfl, (Option.some.inj lock).symm⟩)
  | closed clientId => exact .inr (.inr ⟨clientId, rfl, (Option.some.inj lock).symm⟩)
  | _ => cases lock

/-- The places at which a thread unlocks the mutex, and where it goes on. -/
theorem Place.unlock_cases {place next : Place} (unlock : place.unlock = some next) :
    (∃ i, place = .admitted i ∧ next = .creating i) ∨
    (place = .refused ∧ next = .listening) ∨
    (∃ clientId message slot, maxClients ≤ slot ∧ place = .visiting clientId message slot ∧
      next = .checking clientId) ∨
    (place = .uncounted ∧ next = .finished) := by
  cases place with
  | admitted i => exact .inl ⟨i, rfl, (Option.some.inj unlock).symm⟩
  | refused => exact .inr (.inl ⟨rfl, (Option.some.inj unlock).symm⟩)
  | visiting clientId message slot =>
    -- The loop over the slots has ended.
    rw [Place.unlock] at unlock
    split at unlock
    next => cases unlock
    next ended =>
      exact .inr (.inr (.inl ⟨clientId, message, slot, Nat.le_of_not_lt ended, rfl,
        (Option.some.inj unlock).symm⟩))
  | uncounted => exact .inr (.inr (.inr ⟨rfl, (Option.some.inj unlock).symm⟩))
  | _ => cases unlock

/-- The steps that change nothing but the place of a thread. -/
inductive Moves (clients : Nat → Int) (endSession : Bool) : Place → Event → Place → Prop
  | listen : endSession = false → Moves clients endSession .listening .test .accepting
  | stop : endSession = true → Moves clients endSession .listening .test .stopped
  /-- Nobody looks at the result of `pthread_create`. -/
  | createFailed {i : Nat} : Moves clients endSession (.creating i) .createFailed .listening
  | enter {clientId : Nat} : endSession = false →
      Moves clients endSession (.checking clientId) .test (.reading clientId)
  | exit {clientId : Nat} : endSession = true →
      Moves clients endSession (.checking clientId) .test (.leaving clientId)
  /-- The client sends what it likes. -/
  | read {clientId : Nat} {message : List UInt8} : Sized message →
      Moves clients endSession (.reading clientId) (.read message) (.sending clientId message)
  | hangup {clientId : Nat} :
      Moves clients endSession (.reading clientId) .hangup (.leaving clientId)
  | skip {clientId slot : Nat} {message : List UInt8} : slot < maxClients → clients slot = -1 →
      Moves clients endSession (.visiting clientId message slot) .skip
        (.visiting clientId message (slot + 1))
  /-- The size is written, and the slot is looked up again for the payload. -/
  | payload {clientId slot : Nat} {message : List UInt8} {socket : Int} :
      Moves clients endSession (.writing clientId message slot .size socket []) .payload
        (.writing clientId message slot .payload (clients slot) message)
  | done {clientId slot : Nat} {message : List UInt8} {socket : Int} :
      Moves clients endSession (.writing clientId message slot .payload socket []) .done
        (.visiting clientId message (slot + 1))
  /-- A `write` that returns 0 ends the frame. -/
  | zero {clientId slot : Nat} {message rest : List UInt8} {part : Part} {socket : Int} :
      rest ≠ [] → Moves clients endSession (.writing clientId message slot part socket rest) .zero
        (.visiting clientId message (slot + 1))
  /-- A `write` that returns -1 is repeated, whatever the error is. -/
  | retry {clientId slot : Nat} {message rest : List UInt8} {part : Part} {socket : Int} :
      rest ≠ [] → Moves clients endSession (.writing clientId message slot part socket rest) .retry
        (.writing clientId message slot part socket rest)

end Threads

variable {Thread : Type*}

/-- The server when all slots are empty and `accept` was not called. -/
def start : State Thread where
  clients _ := -1
  clientsCount := 0
  endSession := false
  mutex := none
  place
    | .runServer => .listening
    | .processClient _ => .absent
  sockets _ := none
  connections := 0
  received _ := []
  addressed := []

section Steps

variable [DecidableEq Thread]

/-- A thread goes to another place. -/
def State.goto (st : State Thread) (party : Party Thread) (next : Place) : State Thread :=
  { st with place := Function.update st.place party next }

/-- The steps of the server, up to the return of `run_server` and without failures of `accept`. -/
inductive Step : State Thread → Action Thread → State Thread → Prop
  /-- `close_server` runs in some thread. -/
  | signal {st : State Thread} {party : Party Thread} :
      Step st ⟨party, .signal⟩ { st with endSession := true }
  | move {st : State Thread} {party : Party Thread} {event : Event} {next : Place} :
      Moves st.clients st.endSession (st.place party) event next →
      Step st ⟨party, event⟩ (st.goto party next)
  | lock {st : State Thread} {party : Party Thread} {next : Place} : st.mutex = none →
      (st.place party).lock = some next →
      Step st ⟨party, .lock⟩ { st.goto party next with mutex := some party, addressed := [] }
  | unlock {st : State Thread} {party : Party Thread} {next : Place} :
      (st.place party).unlock = some next →
      Step st ⟨party, .unlock⟩ { st.goto party next with mutex := none }
  /-- Any number that is not in use may be the new descriptor. -/
  | accept {st : State Thread} {clientFd : Int} : st.place .runServer = .accepting →
      0 ≤ clientFd → st.sockets clientFd = none →
      Step st ⟨.runServer, .accept clientFd⟩
        { st.goto .runServer (.accepted clientFd) with
          sockets := Function.update st.sockets clientFd (some st.connections)
          connections := st.connections + 1 }
  | claim {st : State Thread} {clientFd : Int} : st.place .runServer = .admitting clientFd →
      st.clientsCount < maxClients → search st.clients < maxClients →
      Step st ⟨.runServer, .claim⟩
        { st.goto .runServer (.counting (search st.clients)) with
          clients := Function.update st.clients (search st.clients) clientFd }
  /-- The search finds no free slot, and the thread is created all the same. -/
  | miss {st : State Thread} {clientFd : Int} : st.place .runServer = .admitting clientFd →
      st.clientsCount < maxClients → ¬ search st.clients < maxClients →
      Step st ⟨.runServer, .miss⟩ (st.goto .runServer (.admitted (search st.clients)))
  | count {st : State Thread} {i : Nat} : st.place .runServer = .counting i →
      Step st ⟨.runServer, .count⟩
        { st.goto .runServer (.admitted i) with clientsCount := st.clientsCount + 1 }
  | refuse {st : State Thread} {clientFd : Int} : st.place .runServer = .admitting clientFd →
      ¬ st.clientsCount < maxClients →
      Step st ⟨.runServer, .refuse⟩
        { st.goto .runServer .refused with
          sockets := Function.update st.sockets clientFd none }
  | create {st : State Thread} {thread : Thread} {i : Nat} : st.place .runServer = .creating i →
      st.place (.processClient thread) = .absent →
      Step st ⟨.runServer, .create⟩
        ((st.goto .runServer .listening).goto (.processClient thread) (.checking i))
  | begin {st : State Thread} {thread : Thread} {clientId slot : Nat} {message : List UInt8} :
      st.place (.processClient thread) = .visiting clientId message slot → slot < maxClients →
      st.clients slot ≠ -1 →
      Step st ⟨.processClient thread, .begin⟩
        { st.goto (.processClient thread) (.writing clientId message slot .size (st.clients slot)
            (sizeBuf message.length)) with
          addressed := st.addressed ++ [st.sockets (st.clients slot)] }
  /-- A `write` moves some of the bytes, at least one. -/
  | put {st : State Thread} {thread : Thread} {clientId slot amount : Nat}
      {message rest : List UInt8} {part : Part} {socket : Int} {connection : Connection} :
      st.place (.processClient thread) = .writing clientId message slot part socket rest →
      st.sockets socket = some connection → 0 < amount → amount ≤ rest.length →
      Step st ⟨.processClient thread, .put amount⟩
        { st.goto (.processClient thread) (.writing clientId message slot part socket
            (rest.drop amount)) with
          received := Function.update st.received connection
            (st.received connection ++ rest.take amount) }
  | close {st : State Thread} {thread : Thread} {clientId : Nat} :
      st.place (.processClient thread) = .leaving clientId →
      Step st ⟨.processClient thread, .close⟩
        { st.goto (.processClient thread) (.closed clientId) with
          sockets := Function.update st.sockets (st.clients clientId) none }
  | clear {st : State Thread} {thread : Thread} {clientId : Nat} :
      st.place (.processClient thread) = .clearing clientId →
      Step st ⟨.processClient thread, .clear⟩
        { st.goto (.processClient thread) .cleared with
          clients := Function.update st.clients clientId (-1) }
  | uncount {st : State Thread} {thread : Thread} :
      st.place (.processClient thread) = .cleared →
      Step st ⟨.processClient thread, .uncount⟩
        { st.goto (.processClient thread) .uncounted with clientsCount := st.clientsCount - 1 }

/-- What a step can do to the table and to the descriptors, and where the thread is that does it. -/
inductive Change (st : State Thread) (action : Action Thread) (after : State Thread) : Prop
  | none (clients : after.clients = st.clients) (sockets : after.sockets = st.sockets)
      (connections : after.connections = st.connections)
  | accept {clientFd : Int} (event : action.event = .accept clientFd)
      (unopened : st.sockets clientFd = .none) (clients : after.clients = st.clients)
      (sockets : after.sockets = Function.update st.sockets clientFd (some st.connections))
      (connections : after.connections = st.connections + 1)
  | refuse {clientFd : Int} (here : st.place .runServer = .admitting clientFd)
      (there : after.place .runServer = .refused) (clients : after.clients = st.clients)
      (sockets : after.sockets = Function.update st.sockets clientFd .none)
      (connections : after.connections = st.connections)
  | close {thread : Thread} {clientId : Nat} (event : action.event = .close)
      (here : st.place (.processClient thread) = .leaving clientId)
      (clients : after.clients = st.clients)
      (sockets : after.sockets = Function.update st.sockets (st.clients clientId) .none)
      (connections : after.connections = st.connections)
  | claim {clientFd : Int} (here : st.place .runServer = .admitting clientFd)
      (found : search st.clients < maxClients)
      (there : after.place .runServer = .counting (search st.clients))
      (clients : after.clients = Function.update st.clients (search st.clients) clientFd)
      (sockets : after.sockets = st.sockets) (connections : after.connections = st.connections)
  | clear {thread : Thread} {clientId : Nat}
      (here : st.place (.processClient thread) = .clearing clientId)
      (clients : after.clients = Function.update st.clients clientId (-1))
      (sockets : after.sockets = st.sockets) (connections : after.connections = st.connections)

/-- A step changes the table or the descriptors in these ways only. -/
theorem Step.change {st after : State Thread} {action : Action Thread}
    (step : Step st action after) : Change st action after := by
  cases step with
  | accept here natural unopened => exact .accept rfl unopened rfl rfl rfl
  | claim here below found => exact .claim here found (by simp [State.goto]) rfl rfl rfl
  | refuse here full => exact .refuse here (by simp [State.goto]) rfl rfl rfl
  | close here => exact .close rfl here rfl rfl rfl
  | clear here => exact .clear here rfl rfl rfl
  | signal | move | lock | unlock | miss | count | create | begin | put | uncount =>
    exact .none rfl rfl rfl

end Steps

end SystemProgramming.Chatroom
