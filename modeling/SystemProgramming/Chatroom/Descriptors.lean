import SystemProgramming.Chatroom.Slots

/-!
The descriptors in the table of clients: they are open and different until a thread closes its own,
which it does before it gives back the slot.
-/

namespace SystemProgramming.Chatroom

open Foundations

variable {Thread : Type*}

/--
The descriptors in the table are open and pairwise different, and no call of `write_to_clients` has
begun a frame twice for one connection, or for a closed descriptor.
-/
structure DeliversOnce (st : State Thread) : Prop where
  opened : ∀ slot < maxClients, st.clients slot ≠ -1 → st.sockets (st.clients slot) ≠ none
  apart : ∀ slot < maxClients, ∀ other < maxClients, st.clients slot ≠ -1 →
    st.clients slot = st.clients other → slot = other
  once : st.addressed.Nodup
  reachable : none ∉ st.addressed

/--
A connection has one descriptor, and the descriptors in the table and the one that waits for its slot
are pairwise different.
-/
structure Wired (st : State Thread) : Prop where
  numbered : ∀ socket connection, st.sockets socket = some connection → connection < st.connections
  injective : ∀ socket other connection, st.sockets socket = some connection →
    st.sockets other = some connection → socket = other
  fresh : ∀ clientFd, (st.place .runServer).incoming = some clientFd →
    ∀ slot < maxClients, st.clients slot ≠ clientFd
  apart : ∀ slot < maxClients, ∀ other < maxClients, st.clients slot ≠ -1 →
    st.clients slot = st.clients other → slot = other

/-- The descriptors in the table and the one that waits for its slot are open. -/
structure Alive (st : State Thread) : Prop where
  stored : ∀ slot < maxClients, st.clients slot ≠ -1 → st.sockets (st.clients slot) ≠ none
  arriving : ∀ clientFd, (st.place .runServer).incoming = some clientFd →
    st.sockets clientFd ≠ none

/-- The slots that a call of `write_to_clients` has come to lie below this one. -/
def Place.reached : Place → Option Nat
  | visiting _ _ slot => some slot
  | writing _ _ slot _ _ _ => some (slot + 1)
  | _ => none

/-- The frames of a call were begun for open descriptors in slots that it has come to, once each. -/
structure Addressed (st : State Thread) : Prop where
  once : st.addressed.Nodup
  reachable : none ∉ st.addressed
  reached : ∀ party bound, (st.place party).reached = some bound → ∀ entry ∈ st.addressed,
    ∃ slot < bound, slot < maxClients ∧ st.clients slot ≠ -1 ∧
      entry = st.sockets (st.clients slot)

section Places

variable {clients : Nat → Int} {endSession : Bool} {place next : Place} {event : Event}
  {bound : Nat}

/-- A call that has come to slots holds the mutex. -/
theorem Place.locked_of_reached (reached : place.reached = some bound) : place.locked = true := by
  unfold Place.reached at reached
  split at reached <;> first | rfl | cases reached

/-- A call goes on to later slots only. -/
theorem Moves.reached (moves : Moves clients endSession place event next)
    (reached : next.reached = some bound) :
    ∃ earlier ≤ bound, place.reached = some earlier := by
  cases moves with
  | skip | payload | done | zero | retry =>
    cases reached
    exact ⟨_, by omega, rfl⟩
  | _ => cases reached

/-- A step that changes nothing but a place neither closes nor opens a descriptor, nor locks. -/
theorem Moves.quiet (moves : Moves clients endSession place event next) :
    event ≠ .close ∧ event ≠ .lock ∧ ∀ clientFd, event ≠ .accept clientFd := by
  cases moves <;> exact ⟨nofun, nofun, fun _ => nofun⟩

/-- A thread that unlocks the mutex has left `write_to_clients`. -/
theorem Place.reached_of_unlock (unlock : place.unlock = some next) : next.reached = none := by
  have free := (Place.unlocks_of_unlock unlock).free
  cases shown : next.reached with
  | none => rfl
  | some bound => rw [Place.locked_of_reached shown] at free; cases free

end Places

variable {st after final : State Thread} {action : Action Thread}

namespace Wired

/-- At the beginning, there is no connection. -/
theorem start : Wired (start : State Thread) where
  numbered _ _ connected := by cases connected
  injective _ _ _ connected := by cases connected
  fresh _ arriving := by cases arriving
  apart _ _ _ _ taken := absurd rfl taken

/-- The connections of a step have one descriptor each, and are numbered. -/
theorem sockets_step (wired : Wired st) (change : Change st action after) :
    (∀ socket connection, after.sockets socket = some connection →
      connection < after.connections) ∧
    ∀ socket other connection, after.sockets socket = some connection →
      after.sockets other = some connection → socket = other := by
  -- Where a descriptor is closed, the connections that are left were there before.
  have closed : ∀ closing, after.sockets = Function.update st.sockets closing none →
      ∀ socket connection, after.sockets socket = some connection →
        st.sockets socket = some connection := by
    intro closing sockets socket connection connected
    rw [sockets] at connected
    by_cases same : socket = closing
    · rw [same, Function.update_self] at connected
      cases connected
    · rwa [Function.update_of_ne same] at connected
  cases change with
  | none _ sockets connections | claim _ _ _ _ sockets connections | clear _ _ sockets connections =>
    rw [sockets, connections]
    exact ⟨wired.numbered, wired.injective⟩
  | refuse _ _ _ sockets connections | close _ _ _ sockets connections =>
    have old := closed _ sockets
    rw [connections]
    exact ⟨fun socket connection connected => wired.numbered _ _ (old _ _ connected),
      fun socket other connection first second =>
        wired.injective _ _ _ (old _ _ first) (old _ _ second)⟩
  | @accept clientFd _ _ _ sockets connections =>
    -- The new connection is not one of the old ones.
    have cases : ∀ socket connection, after.sockets socket = some connection →
        (socket = clientFd ∧ connection = st.connections) ∨
        (st.sockets socket = some connection ∧ connection < st.connections) := by
      intro socket connection connected
      rw [sockets] at connected
      by_cases same : socket = clientFd
      · rw [same, Function.update_self] at connected
        exact .inl ⟨same, (Option.some.inj connected).symm⟩
      · rw [Function.update_of_ne same] at connected
        exact .inr ⟨connected, wired.numbered _ _ connected⟩
    constructor
    · intro socket connection connected
      rw [connections]
      rcases cases socket connection connected with ⟨-, rfl⟩ | ⟨-, below⟩
      · exact Nat.lt_succ_self _
      · exact Nat.lt_succ_of_lt below
    · intro socket other connection first second
      rcases cases socket connection first with ⟨rfl, rfl⟩ | ⟨old, below⟩
      · rcases cases other _ second with ⟨rfl, -⟩ | ⟨-, below⟩
        · rfl
        · exact absurd below (Nat.lt_irrefl _)
      · rcases cases other _ second with ⟨-, rfl⟩ | ⟨older, -⟩
        · exact absurd below (Nat.lt_irrefl _)
        · exact wired.injective _ _ _ old older

variable [DecidableEq Thread]

/-- Every step keeps the wiring, where no descriptor comes that is still in the table. -/
theorem step (wired : Wired st) (booked : st.Booked) (step : Step st action after)
    (unused : ∀ clientFd, action.event = .accept clientFd →
      ∀ slot < maxClients, st.clients slot ≠ clientFd) : Wired after := by
  obtain ⟨numbered, injective⟩ := wired.sockets_step step.change
  -- Before the step, the descriptor that waits for its slot was not in the table.
  have fresh : ∀ clientFd, (after.place .runServer).incoming = some clientFd →
      ∀ slot < maxClients, st.clients slot ≠ clientFd := by
    intro clientFd shown
    rcases step.incoming shown with old | ⟨new, -⟩
    · exact wired.fresh clientFd old
    · exact unused clientFd new
  cases step.change with
  | none clients | accept _ _ clients | refuse _ _ clients | close _ _ clients =>
    refine ⟨numbered, injective, ?_, ?_⟩
    · rw [clients]
      exact fresh
    · rw [clients]
      exact wired.apart
  | @claim clientFd here found there clients =>
    refine ⟨numbered, injective, fun other shown => ?_, fun slot below other under taken alike => ?_⟩
    · rw [there] at shown
      cases shown
    · -- The new descriptor is in one slot, and the others are as before.
      have new := wired.fresh clientFd (by rw [here, Place.incoming])
      rw [clients] at taken alike
      by_cases first : slot = search st.clients
      · by_cases second : other = search st.clients
        · rw [first, second]
        · rw [first, Function.update_self, Function.update_of_ne second] at alike
          exact absurd alike.symm (new other under)
      · rw [Function.update_of_ne first] at taken alike
        by_cases second : other = search st.clients
        · rw [second, Function.update_self] at alike
          exact absurd alike (new slot below)
        · rw [Function.update_of_ne second] at alike
          exact wired.apart slot below other under taken alike
  | @clear thread clientId here clients =>
    refine ⟨numbered, injective, fun clientFd shown slot below => ?_,
      fun slot below other under taken alike => ?_⟩
    · rw [clients]
      by_cases same : slot = clientId
      · -- A free slot does not hold a descriptor.
        have natural := (booked.step step).incoming .runServer clientFd shown
        rw [same, Function.update_self]
        omega
      · rw [Function.update_of_ne same]
        exact fresh clientFd shown slot below
    · rw [clients] at taken alike
      by_cases first : slot = clientId
      · rw [first, Function.update_self] at taken
        exact absurd rfl taken
      · rw [Function.update_of_ne first] at taken alike
        by_cases second : other = clientId
        · rw [second, Function.update_self] at alike
          exact absurd alike taken
        · rw [Function.update_of_ne second] at alike
          exact wired.apart slot below other under taken alike

end Wired

/-- A descriptor that is open is not one that is not. -/
theorem ne_of_opened {socket other : Int} (opened : st.sockets socket ≠ none)
    (unopened : st.sockets other = none) : socket ≠ other := by
  intro same
  rw [same] at opened
  exact opened unopened

/-- At the beginning, the table is empty. -/
theorem Alive.start : Alive (start : State Thread) where
  stored _ _ taken := absurd rfl taken
  arriving _ shown := by cases shown

/-- At the beginning, no frame was begun. -/
theorem Addressed.start : Addressed (start : State Thread) where
  once := List.nodup_nil
  reachable := List.not_mem_nil
  reached _ _ _ _ member := absurd member List.not_mem_nil

/-- Then frames are delivered once. -/
theorem Addressed.deliversOnce (addressed : Addressed st) (wired : Wired st) (alive : Alive st) :
    DeliversOnce st :=
  ⟨alive.stored, wired.apart, addressed.once, addressed.reachable⟩

/-- While a call of `write_to_clients` goes on, the table stays the same. -/
theorem Change.clients_eq {party : Party Thread} {bound : Nat} (change : Change st action after)
    (booked : st.Booked) (reached : (st.place party).reached = some bound) :
    after.clients = st.clients := by
  -- The call holds the mutex, so no other thread is where it is locked.
  have held := (booked.holder party).mp (Place.locked_of_reached reached)
  have here : ∀ one, (st.place one).locked = true → (st.place one).reached = some bound := by
    intro one locked
    have same := (booked.holder one).mp locked
    rw [held] at same
    exact Option.some.inj same ▸ reached
  cases change with
  | none clients | accept _ _ clients | refuse _ _ clients | close _ _ clients => exact clients
  | claim admitting =>
    have call := here .runServer (by rw [admitting, Place.locked])
    rw [admitting] at call
    cases call
  | @clear thread _ clearing =>
    have call := here (.processClient thread) (by rw [clearing, Place.locked])
    rw [clearing] at call
    cases call

/-- A descriptor in the table is closed by its thread only. -/
theorem Change.sockets_eq {slot : Nat} (change : Change st action after) (wired : Wired st)
    (alive : Alive st) (meets : action.event ≠ .close) (below : slot < maxClients)
    (taken : st.clients slot ≠ -1) :
    after.sockets (st.clients slot) = st.sockets (st.clients slot) := by
  cases change with
  | none _ sockets | claim _ _ _ _ sockets | clear _ _ sockets => rw [sockets]
  | accept _ unopened _ sockets =>
    -- The new descriptor was closed, so it is not one of those in the table.
    have opened := alive.stored slot below taken
    rw [sockets, Function.update_of_ne (ne_of_opened opened unopened)]
  | @refuse clientFd here _ _ sockets =>
    have apart := wired.fresh clientFd (by rw [here, Place.incoming]) slot below
    rw [sockets, Function.update_of_ne apart]
  | close event => exact absurd event meets

variable [DecidableEq Thread]

/-- A thread that closes its descriptor leaves it in the table. -/
theorem Step.not_deliversOnce (step : Step st action after) (booked : st.Booked)
    (close : action.event = .close) : ¬ DeliversOnce after := by
  cases step with
  | @close thread clientId here =>
    intro delivers
    have serves : (st.place (.processClient thread)).serves = some clientId := by
      rw [here, Place.serves]
    obtain ⟨within, taken⟩ := booked.within _ _ serves
    exact delivers.opened clientId within taken (Function.update_self ..)
  | move moves => exact absurd close moves.quiet.1
  | _ => cases close

/-- Every step but a thread's `close` keeps the descriptors open. -/
theorem Alive.step (alive : Alive st) (wired : Wired st) (step : Step st action after)
    (meets : action.event ≠ .close) : Alive after := by
  constructor
  · -- A slot has the descriptor that it had, or the one that has just arrived.
    intro slot below taken
    cases step.change with
    | none clients | accept _ _ clients | refuse _ _ clients =>
      rw [clients] at taken ⊢
      rw [step.change.sockets_eq wired alive meets below taken]
      exact alive.stored slot below taken
    | close event => exact absurd event meets
    | @claim clientFd here found _ clients sockets =>
      rw [clients] at taken ⊢
      rw [sockets]
      by_cases same : slot = search st.clients
      · rw [same, Function.update_self]
        exact alive.arriving clientFd (by rw [here, Place.incoming])
      · rw [Function.update_of_ne same] at taken ⊢
        exact alive.stored slot below taken
    | @clear _ clientId here clients sockets =>
      rw [clients] at taken ⊢
      rw [sockets]
      by_cases same : slot = clientId
      · rw [same, Function.update_self] at taken
        exact absurd rfl taken
      · rw [Function.update_of_ne same] at taken ⊢
        exact alive.stored slot below taken
  · intro clientFd shown
    rcases step.incoming shown with old | ⟨-, opened⟩
    · have opened := alive.arriving clientFd old
      cases step.change with
      | none _ sockets | claim _ _ _ _ sockets | clear _ _ sockets =>
        rw [sockets]
        exact opened
      | accept _ unopened _ sockets =>
        rw [sockets, Function.update_of_ne (ne_of_opened opened unopened)]
        exact opened
      | refuse _ there =>
        rw [there] at shown
        cases shown
      | close event => exact absurd event meets
    · exact opened

/-- Where no frame is begun, the frames of a call are those that were begun before. -/
theorem Addressed.keep (addressed : Addressed st) (booked : st.Booked) (wired : Wired st)
    (alive : Alive st) (step : Step st action after) (meets : action.event ≠ .close)
    (same : after.addressed = st.addressed)
    (reached : ∀ party bound, (after.place party).reached = some bound →
      ∃ earlier ≤ bound, (st.place party).reached = some earlier) : Addressed after where
  once := by
    rw [same]
    exact addressed.once
  reachable := by
    rw [same]
    exact addressed.reachable
  reached party bound shown entry member := by
    rw [same] at member
    obtain ⟨earlier, before, old⟩ := reached party bound shown
    obtain ⟨slot, below, within, taken, rfl⟩ := addressed.reached party earlier old entry member
    have clients := step.change.clients_eq booked old
    have sockets := step.change.sockets_eq wired alive meets within taken
    refine ⟨slot, by omega, within, ?_, ?_⟩
    · rw [clients]
      exact taken
    · rw [clients, sockets]

/-- A frame begins for a connection that has none yet, and it is in the slot that the call came to. -/
theorem Addressed.begin {thread : Thread} {clientId slot : Nat} {message : List UInt8}
    (addressed : Addressed st) (booked : st.Booked) (wired : Wired st) (alive : Alive st)
    (here : st.place (.processClient thread) = .visiting clientId message slot)
    (within : slot < maxClients) (taken : st.clients slot ≠ -1) :
    Addressed { st.goto (.processClient thread) (.writing clientId message slot .size
      (st.clients slot) (sizeBuf message.length)) with
        addressed := st.addressed ++ [st.sockets (st.clients slot)] } := by
  have reached : (st.place (.processClient thread)).reached = some slot := by
    rw [here, Place.reached]
  have opened := alive.stored slot within taken
  have earlier := addressed.reached _ slot reached
  -- A connection has one descriptor, which is in no other slot.
  have new : st.sockets (st.clients slot) ∉ st.addressed := by
    intro member
    obtain ⟨other, before, under, -, same⟩ := earlier _ member
    obtain ⟨connection, connected⟩ := Option.ne_none_iff_exists'.mp opened
    have alike := wired.injective _ _ connection connected (same ▸ connected)
    have equal := wired.apart slot within other under taken alike
    omega
  refine ⟨?_, ?_, fun party bound shown entry member => ?_⟩
  · rw [← List.concat_eq_append]
    exact addressed.once.concat new
  · intro member
    rcases List.mem_append.mp member with old | last
    · exact addressed.reachable old
    · exact opened (List.mem_singleton.mp last).symm
  · simp only [State.goto] at shown
    by_cases same : party = .processClient thread
    · rw [same, Function.update_self] at shown
      obtain rfl := Option.some.inj shown
      rcases List.mem_append.mp member with old | last
      · obtain ⟨other, before, rest⟩ := earlier entry old
        exact ⟨other, by omega, rest⟩
      · exact ⟨slot, by omega, within, taken, List.mem_singleton.mp last⟩
    · -- No other call goes on, as this one holds the mutex.
      rw [Function.update_of_ne same] at shown
      have held := (booked.holder party).mp (Place.locked_of_reached shown)
      have mine := (booked.holder (.processClient thread)).mp (Place.locked_of_reached reached)
      rw [held] at mine
      exact absurd (Option.some.inj mine) same

/-- Every step but a thread's `close` keeps frames from being begun twice. -/
theorem Addressed.step (addressed : Addressed st) (booked : st.Booked) (wired : Wired st)
    (alive : Alive st) (step : Step st action after) (meets : action.event ≠ .close) :
    Addressed after := by
  have whole := step
  cases step with
  | signal =>
    exact addressed.keep booked wired alive whole meets rfl fun _ bound shown => ⟨bound, le_rfl, shown⟩
  | @move party event next moves =>
    refine addressed.keep booked wired alive whole meets rfl fun other bound shown => ?_
    simp only [State.goto] at shown
    by_cases same : other = party
    · subst same
      rw [Function.update_self] at shown
      exact moves.reached shown
    · rw [Function.update_of_ne same] at shown
      exact ⟨bound, le_rfl, shown⟩
  | lock =>
    exact ⟨List.nodup_nil, List.not_mem_nil, fun _ _ _ _ member => absurd member List.not_mem_nil⟩
  | @unlock party next unlock =>
    refine addressed.keep booked wired alive whole meets rfl fun other bound shown =>
      ⟨bound, le_rfl, ?_⟩
    exact view_of_update Place.reached (.inr (Place.reached_of_unlock unlock)) shown
  | create =>
    refine addressed.keep booked wired alive whole meets rfl fun other bound shown =>
      ⟨bound, le_rfl, ?_⟩
    simp only [State.goto] at shown
    have earlier := view_of_update Place.reached (.inr rfl) shown
    exact view_of_update Place.reached (.inr rfl) earlier
  -- None of these calls is on its way through the slots.
  | accept | claim | miss | count | refuse | close | clear | uncount =>
    refine addressed.keep booked wired alive whole meets rfl fun other bound shown =>
      ⟨bound, le_rfl, ?_⟩
    simp only [State.goto] at shown
    exact view_of_update Place.reached (.inr rfl) shown
  | put here =>
    refine addressed.keep booked wired alive whole meets rfl fun other bound shown =>
      ⟨bound, le_rfl, ?_⟩
    simp only [State.goto] at shown
    refine view_of_update Place.reached (.inl ?_) shown
    rw [here]
    rfl
  | begin here within taken => exact addressed.begin booked wired alive here within taken

/-- A descriptor that comes was not open. -/
theorem Step.unopened {clientFd : Int} (step : Step st action after)
    (accepts : action.event = .accept clientFd) : 0 ≤ clientFd ∧ st.sockets clientFd = none := by
  cases step with
  | accept _ natural unopened =>
    cases accepts
    exact ⟨natural, unopened⟩
  | move moves => exact absurd accepts (moves.quiet.2.2 clientFd)
  | _ => cases accepts

/-- What all states have that are reached without a `close` of a thread. -/
structure Kept (st : State Thread) : Prop where
  booked : st.Booked
  wired : Wired st
  alive : Alive st
  addressed : Addressed st

/-- Every step but a thread's `close` keeps the table and the descriptors right. -/
theorem Kept.step (kept : Kept st) (step : Step st action after)
    (meets : action.event ≠ .close) : Kept after where
  booked := kept.booked.step step
  wired := by
    -- As the descriptors in the table are open, a new one is none of them.
    refine kept.wired.step kept.booked step fun clientFd accepts slot below same => ?_
    obtain ⟨natural, unopened⟩ := step.unopened accepts
    exact kept.alive.stored slot below (by omega) (same ▸ unopened)
  alive := kept.alive.step kept.wired step meets
  addressed := kept.addressed.step kept.booked kept.wired kept.alive step meets

variable {trace : List (Transition (State Thread) (Action Thread))}

/--
In all states of a run, the descriptors in the table are open and pairwise different, and no call has
begun a frame twice for one connection or for a closed descriptor, exactly if no thread in
`process_client` has come to its `close`.
-/
theorem deliversOnce_iff_no_close (run : Run Step (start : State Thread) trace final) :
    (∀ taken ∈ trace, DeliversOnce taken.after) ↔
      ∀ taken ∈ trace, taken.action.event ≠ .close := by
  apply run.all_good_iff_of_kept Kept (fun taken => DeliversOnce taken.after)
    (fun taken => taken.action.event ≠ .close) ⟨.start, .start, .start, .start⟩
  · intro before action after kept step meets
    exact kept.step step meets
  · intro before action after kept step
    constructor
    · intro delivers close
      exact step.not_deliversOnce kept.booked close delivers
    · intro meets
      have next := kept.step step meets
      exact next.addressed.deliversOnce next.wired next.alive

/-- A client is let in, and nothing is closed. -/
theorem deliversOnce_first : ∃ final : State Unit, final.clients 0 = 4 ∧ DeliversOnce final := by
  have listening := Run.start.next (@Step.move Unit _ start .runServer _ _ (.listen rfl))
  have accepted := listening.next (@Step.accept _ _ _ 4 rfl (by decide) rfl)
  have locked := accepted.next (@Step.lock _ _ _ .runServer _ rfl rfl)
  have claimed := locked.next (@Step.claim _ _ _ 4 rfl (by decide) (by decide))
  have delivers := (deliversOnce_iff_no_close claimed).mpr (by simp)
  exact ⟨_, rfl, delivers _ (List.mem_append_right _ (List.mem_singleton_self _))⟩

/--
A client is let in and leaves. Its descriptor is closed and comes again for the next client, who gets
the second slot, while the first one still holds the same number.
-/
theorem closed_before_cleared : ∃ trace final, Run Step (start : State Unit) trace final ∧
    final.clients 0 = 4 ∧ final.clients 1 = 4 ∧ ¬ DeliversOnce final := by
  have listening := Run.start.next (@Step.move Unit _ start .runServer _ _ (.listen rfl))
  have accepted := listening.next (@Step.accept _ _ _ 4 rfl (by decide) rfl)
  have locked := accepted.next (@Step.lock _ _ _ .runServer _ rfl rfl)
  have claimed := locked.next (@Step.claim _ _ _ 4 rfl (by decide) (by decide))
  have unlocked := (claimed.next (.count rfl)).next (@Step.unlock _ _ _ .runServer _ rfl)
  have created := unlocked.next (@Step.create _ _ _ () _ rfl rfl)
  -- The client leaves, and its thread has not got the mutex.
  have reading := created.next (@Step.move _ _ _ (.processClient ()) _ _ (.enter rfl))
  have leaving := reading.next (@Step.move _ _ _ (.processClient ()) _ _ .hangup)
  have closed := leaving.next (@Step.close _ _ _ () _ rfl)
  -- The next client comes.
  have again := closed.next (@Step.move _ _ _ .runServer _ _ (.listen rfl))
  have reused := again.next (@Step.accept _ _ _ 4 rfl (by decide) rfl)
  have relocked := reused.next (@Step.lock _ _ _ .runServer _ rfl rfl)
  have stored := relocked.next (@Step.claim _ _ _ 4 rfl (by decide) (by decide))
  refine ⟨_, _, stored, rfl, rfl, fun delivers => ?_⟩
  exact absurd (delivers.apart 0 (by decide) 1 (by decide) (by decide) rfl) (by decide)

end SystemProgramming.Chatroom
