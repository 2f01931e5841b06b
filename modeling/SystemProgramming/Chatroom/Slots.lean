import SystemProgramming.Chatroom.Server

/-! The table of clients and its counter: who serves a slot, and that a free one is found. -/

namespace SystemProgramming.Chatroom

open Foundations

/-- The mutex is locked by a thread at this place. -/
def Place.locked : Place → Bool
  | admitting _ | counting _ | admitted _ | refused => true
  | visiting .. | writing .. | clearing _ | cleared | uncounted => true
  | _ => false

/-- The slot of a thread that is to be created or that has not given it back. -/
def Place.serves : Place → Option Nat
  | counting i | admitted i | creating i => some i
  | checking clientId | reading clientId | sending clientId _ | visiting clientId _ _ => some clientId
  | writing clientId _ _ _ _ _ | leaving clientId | closed clientId | clearing clientId =>
    some clientId
  | _ => none

/-- A descriptor that has not got its slot. -/
def Place.incoming : Place → Option Int
  | accepted clientFd | admitting clientFd => some clientFd
  | _ => none

/-- How far the counter is ahead of the table. -/
def Place.drift : Place → Int
  | counting _ => -1
  | cleared => 1
  | _ => 0

/-- The slots that are not free. -/
def occupied (clients : Nat → Int) : Finset Nat := {i ∈ Finset.range maxClients | clients i ≠ -1}

/-- A step that is no more than a change of place keeps what the table needs to know. -/
structure Place.Similar (place next : Place) : Prop where
  locked : next.locked = place.locked
  serves : next.serves = place.serves ∨ next.serves = none
  incoming : next.incoming = place.incoming ∨ next.incoming = none
  drift : next.drift = place.drift

/-- The places that lead on from where the mutex is free. -/
structure Place.Locks (place next : Place) : Prop where
  free : place.locked = false
  locked : next.locked = true
  serves : next.serves = place.serves
  incoming : next.incoming = place.incoming ∨ next.incoming = none
  drift : next.drift = 0

/-- The places that lead on when the mutex is unlocked. -/
structure Place.Unlocks (place next : Place) : Prop where
  locked : place.locked = true
  free : next.locked = false
  serves : next.serves = place.serves ∨ next.serves = none
  incoming : next.incoming = none
  drift : place.drift = 0

section Places

variable {clients : Nat → Int} {endSession : Bool} {place next : Place} {event : Event}

/-- The steps of a thread alone. -/
theorem Moves.similar (moves : Moves clients endSession place event next) : place.Similar next := by
  cases moves with
  | createFailed => exact ⟨rfl, .inr rfl, .inl rfl, rfl⟩
  | _ => exact ⟨rfl, .inl rfl, .inl rfl, rfl⟩

/-- The mutex is locked on the way between two such places. -/
theorem Place.locks_of_lock (lock : place.lock = some next) : place.Locks next := by
  rcases Place.lock_cases lock with ⟨_, rfl, rfl⟩ | ⟨_, _, rfl, rfl⟩ | ⟨_, rfl, rfl⟩ <;>
    exact ⟨rfl, rfl, rfl, .inl rfl, rfl⟩

/-- The mutex is unlocked on the way between two such places. -/
theorem Place.unlocks_of_unlock (unlock : place.unlock = some next) : place.Unlocks next := by
  rcases Place.unlock_cases unlock with ⟨_, rfl, rfl⟩ | ⟨rfl, rfl⟩ | ⟨_, _, _, _, rfl, rfl⟩ |
    ⟨rfl, rfl⟩ <;> exact ⟨rfl, rfl, .inl rfl, rfl, rfl⟩

end Places

section Tables

variable {clients : Nat → Int} {i : Nat} {clientFd : Int}

theorem mem_occupied : i ∈ occupied clients ↔ i < maxClients ∧ clients i ≠ -1 := by
  simp [occupied]

/-- A free slot is taken. -/
theorem occupied_claim (within : i < maxClients) (taken : clientFd ≠ -1) :
    occupied (Function.update clients i clientFd) = insert i (occupied clients) := by
  ext other
  by_cases same : other = i
  · simp [mem_occupied, same, within, taken]
  · simp [mem_occupied, same]

/-- A slot is given back. -/
theorem occupied_clear : occupied (Function.update clients i (-1)) = (occupied clients).erase i := by
  ext other
  by_cases same : other = i
  · simp [mem_occupied, same]
  · simp [mem_occupied, same]

/-- The search ends at a free slot, if it ends in the table. -/
theorem clients_search (found : search clients < maxClients) : clients (search clients) = -1 := by
  have holds := @List.findIdx_getElem _ (fun i => decide (clients i = -1)) (List.range maxClients)
    (by rwa [List.length_range])
  simpa [search] using holds

/-- If some slot is free, then the search finds one. -/
theorem search_lt (few : (occupied clients).card < maxClients) : search clients < maxClients := by
  -- Not all slots are taken.
  obtain ⟨i, inside, free⟩ := Finset.exists_mem_notMem_of_card_lt_card
    (show (occupied clients).card < (Finset.range maxClients).card by rwa [Finset.card_range])
  rw [mem_occupied] at free
  have below := Finset.mem_range.mp inside
  have found := @List.findIdx_lt_length_of_exists _ (fun i => decide (clients i = -1))
    (List.range maxClients) ⟨i, List.mem_range.mpr below, by simpa [below] using free⟩
  rwa [List.length_range] at found

end Tables

variable {Thread : Type*}

/-- A slot that is served is taken, by one thread. -/
structure Served (clients : Nat → Int) (place : Party Thread → Place) : Prop where
  within : ∀ party i, (place party).serves = some i → i < maxClients ∧ clients i ≠ -1
  alone : ∀ party other i, (place party).serves = some i → (place other).serves = some i →
    party = other
  incoming : ∀ party clientFd, (place party).incoming = some clientFd → 0 ≤ clientFd

/--
The mutex and the counter agree with the places of the threads: the counter is right but for a change
that is half done under the mutex.
-/
structure Booked (clients : Nat → Int) (clientsCount : Int) (mutex : Option (Party Thread))
    (place : Party Thread → Place) : Prop extends Served clients place where
  holder : ∀ party, (place party).locked = true ↔ mutex = some party
  counted : clientsCount = (occupied clients).card + mutex.elim 0 fun party => (place party).drift

/-- What the table needs to know of a state. -/
abbrev State.Booked (st : State Thread) : Prop :=
  Chatroom.Booked st.clients st.clientsCount st.mutex st.place

section Changes

variable {clients : Nat → Int} {clientsCount : Int} {mutex : Option (Party Thread)}
  {place : Party Thread → Place} {party other : Party Thread} {spot next : Place} {i : Nat}
  {clientFd : Int}

/-- While a thread holds the mutex, the counter is as far ahead as its place says. -/
theorem Booked.counted_at (booked : Booked clients clientsCount mutex place)
    (here : place party = spot) (locked : spot.locked = true) :
    clientsCount = (occupied clients).card + spot.drift := by
  subst here
  have counted := booked.counted
  rwa [(booked.holder party).mp locked] at counted

/-- While a thread holds the mutex, no other one does. -/
theorem Booked.others_free (booked : Booked clients clientsCount mutex place)
    (locked : (place party).locked = true) (apart : other ≠ party) :
    (place other).locked = false := by
  rw [← Bool.not_eq_true, booked.holder, (booked.holder party).mp locked]
  exact fun same => apart (Option.some.inj same).symm

/-- A descriptor that is on its way is not negative. -/
theorem Served.incoming_of (served : Served clients place)
    (incoming : next.incoming = (place party).incoming ∨ next.incoming = none)
    (arrives : next.incoming = some clientFd) : 0 ≤ clientFd := by
  rcases incoming with kept | none
  · exact served.incoming party clientFd (kept ▸ arrives)
  · rw [none] at arrives
    cases arrives

/-- An entry that nobody serves may change. -/
theorem Served.table (served : Served clients place)
    (unserved : ∀ party, (place party).serves ≠ some i) (entry : Int) :
    Served (Function.update clients i entry) place where
  within party slot serving := by
    have apart : slot ≠ i := by
      intro same
      exact unserved party (same ▸ serving)
    rw [Function.update_of_ne apart]
    exact served.within party slot serving
  alone := served.alone
  incoming := served.incoming

variable [DecidableEq Thread]

/-- Where a thread keeps or loses what a place shows, what is shown was shown before. -/
theorem view_of_update {Value : Type*} (view : Place → Option Value) {value : Value}
    (kept : view next = view (place party) ∨ view next = none)
    (shown : view (Function.update place party next other) = some value) :
    view (place other) = some value := by
  by_cases same : other = party
  · subst same
    rw [Function.update_self] at shown
    rcases kept with kept | none
    · rwa [kept] at shown
    · rw [none] at shown
      cases shown
  · rwa [Function.update_of_ne same] at shown

/-- Where one thread goes on, the others hold what they held. -/
theorem locked_update (others : ∀ other, other ≠ party → (place other).locked = false) :
    (Function.update place party next other).locked = true ↔
      next.locked = true ∧ party = other := by
  by_cases same : other = party
  · subst same
    simp
  · rw [Function.update_of_ne same, others other same]
    simp [Ne.symm same]

/-- A thread goes on with no new slot. -/
theorem Served.goto (served : Served clients place)
    (serves : next.serves = (place party).serves ∨ next.serves = none)
    (incoming : ∀ clientFd, next.incoming = some clientFd → 0 ≤ clientFd) :
    Served clients (Function.update place party next) where
  within other i serving := served.within other i (view_of_update Place.serves serves serving)
  alone one other i first second :=
    served.alone one other i (view_of_update Place.serves serves first)
      (view_of_update Place.serves serves second)
  incoming other clientFd arrives := by
    by_cases same : other = party
    · subst same
      rw [Function.update_self] at arrives
      exact incoming clientFd arrives
    · rw [Function.update_of_ne same] at arrives
      exact served.incoming other clientFd arrives

/-- A thread begins to serve a slot that is taken and not served. -/
theorem Served.begin (served : Served clients place) (within : i < maxClients ∧ clients i ≠ -1)
    (unserved : ∀ party, (place party).serves ≠ some i) (serves : next.serves = some i)
    (incoming : next.incoming = none) : Served clients (Function.update place party next) := by
  -- A slot is served by the thread, or by another one as before, which has a different slot.
  have cases : ∀ {other slot}, (Function.update place party next other).serves = some slot →
      (other = party ∧ slot = i) ∨ (other ≠ party ∧ (place other).serves = some slot) := by
    intro other slot serving
    by_cases same : other = party
    · subst same
      rw [Function.update_self, serves] at serving
      exact .inl ⟨rfl, (Option.some.inj serving).symm⟩
    · rw [Function.update_of_ne same] at serving
      exact .inr ⟨same, serving⟩
  refine ⟨fun other slot serving => ?_, fun one other slot first second => ?_,
    fun other clientFd arrives => ?_⟩
  · rcases cases serving with ⟨-, rfl⟩ | ⟨-, old⟩
    · exact within
    · exact served.within other slot old
  · rcases cases first with ⟨rfl, rfl⟩ | ⟨-, old⟩
    · rcases cases second with ⟨rfl, -⟩ | ⟨-, older⟩
      · rfl
      · exact absurd older (unserved other)
    · rcases cases second with ⟨rfl, rfl⟩ | ⟨-, older⟩
      · exact absurd old (unserved one)
      · exact served.alone one other slot old older
  · by_cases same : other = party
    · subst same
      rw [Function.update_self, incoming] at arrives
      cases arrives
    · rw [Function.update_of_ne same] at arrives
      exact served.incoming other clientFd arrives

namespace Booked

/-- A thread goes on where the mutex is locked as before. -/
theorem goto (booked : Booked clients clientsCount mutex place)
    (served : Served clients (Function.update place party next))
    (locked : next.locked = (place party).locked) (drift : next.drift = (place party).drift) :
    Booked clients clientsCount mutex (Function.update place party next) := by
  have kept : ∀ {Value : Type} (view : Place → Value), view next = view (place party) →
      ∀ other, view (Function.update place party next other) = view (place other) := by
    intro Value view same other
    rw [Function.apply_update (fun _ => view), same, Function.update_eq_self]
  refine ⟨served, fun other => ?_, ?_⟩
  · rw [kept Place.locked locked, booked.holder]
  · simpa only [kept Place.drift drift] using booked.counted

/-- A thread goes to a similar place. -/
theorem similar (booked : Booked clients clientsCount mutex place)
    (similar : (place party).Similar next) :
    Booked clients clientsCount mutex (Function.update place party next) :=
  booked.goto (booked.toServed.goto similar.serves fun _ => booked.incoming_of similar.incoming)
    similar.locked similar.drift

/-- A thread locks the mutex. -/
theorem lock (booked : Booked clients clientsCount none place) (locks : (place party).Locks next) :
    Booked clients clientsCount (some party) (Function.update place party next) := by
  refine ⟨booked.toServed.goto (.inl locks.serves) fun _ => booked.incoming_of locks.incoming,
    fun other => ?_, ?_⟩
  · have free : ∀ other, other ≠ party → (place other).locked = false := by
      intro other _
      rw [← Bool.not_eq_true, booked.holder]
      simp
    rw [locked_update free]
    simp [locks.locked]
  · simpa [locks.drift] using booked.counted

/-- A thread unlocks the mutex. -/
theorem unlock (booked : Booked clients clientsCount mutex place)
    (unlocks : (place party).Unlocks next) :
    Booked clients clientsCount none (Function.update place party next) := by
  refine ⟨booked.toServed.goto unlocks.serves fun _ arrives => ?_, fun other => ?_, ?_⟩
  · rw [unlocks.incoming] at arrives
    cases arrives
  · rw [locked_update fun other => booked.others_free unlocks.locked]
    simp [unlocks.free]
  · simpa [unlocks.drift] using booked.counted_at rfl unlocks.locked

/-- The holder of the mutex changes the table or the counter. -/
theorem change {slots : Nat → Int} {counter : Int}
    (booked : Booked clients clientsCount mutex place) (here : place party = spot)
    (locked : spot.locked = true) (still : next.locked = true)
    (served : Served slots (Function.update place party next))
    (counted : counter = (occupied slots).card + next.drift) :
    Booked slots counter mutex (Function.update place party next) := by
  subst here
  have holds := (booked.holder party).mp locked
  refine ⟨served, fun other => ?_, ?_⟩
  · rw [locked_update fun other => booked.others_free locked, holds]
    simp [still]
  · simpa [holds] using counted

/-- The main thread takes a free slot for a new descriptor. -/
theorem claim (booked : Booked clients clientsCount mutex place)
    (here : place .runServer = .admitting clientFd) (found : search clients < maxClients) :
    Booked (Function.update clients (search clients) clientFd) clientsCount mutex
      (Function.update place .runServer (.counting (search clients))) := by
  have natural := booked.incoming .runServer clientFd (by rw [here, Place.incoming])
  have taken : clientFd ≠ -1 := by omega
  -- Nobody serves a slot that is free.
  have free := clients_search found
  have unserved : ∀ other, (place other).serves ≠ some (search clients) := by
    intro other serving
    exact (booked.within other _ serving).2 free
  refine booked.change here rfl rfl ?_ ?_
  · refine (booked.toServed.table unserved clientFd).begin ⟨found, ?_⟩ unserved rfl rfl
    rwa [Function.update_self]
  · have counted := booked.counted_at here rfl
    have new : search clients ∉ occupied clients := by simp [mem_occupied, free]
    rw [occupied_claim found taken, Finset.card_insert_of_notMem new, counted]
    simp only [Place.drift]
    omega

/-- A thread frees its slot. -/
theorem clear (booked : Booked clients clientsCount mutex place)
    (here : place party = .clearing i) :
    Booked (Function.update clients i (-1)) clientsCount mutex
      (Function.update place party .cleared) := by
  have serves : (place party).serves = some i := by rw [here, Place.serves]
  refine booked.change here rfl rfl ?_ ?_
  · have left : Served clients (Function.update place party .cleared) :=
      booked.toServed.goto (.inr rfl) fun _ => nofun
    -- No other thread has served the slot.
    refine left.table (fun other serving => ?_) (-1)
    have old := view_of_update Place.serves (.inr rfl) serving
    obtain rfl := booked.alone other party i old serves
    rw [Function.update_self] at serving
    cases serving
  · have counted := booked.counted_at here rfl
    have member : i ∈ occupied clients := mem_occupied.mpr (booked.within party i serves)
    have positive := Finset.card_pos.mpr ⟨i, member⟩
    rw [occupied_clear, Finset.card_erase_of_mem member, counted]
    simp only [Place.drift]
    omega

/-- The main thread creates the thread of a slot. -/
theorem create {thread : Thread} (booked : Booked clients clientsCount mutex place)
    (here : place .runServer = .creating i) (absent : place (.processClient thread) = .absent) :
    Booked clients clientsCount mutex
      (Function.update (Function.update place .runServer .listening) (.processClient thread)
        (.checking i)) := by
  have serves : (place .runServer).serves = some i := by rw [here, Place.serves]
  have listens : Booked clients clientsCount mutex (Function.update place .runServer .listening) :=
    booked.similar ⟨by rw [here]; rfl, .inr rfl, .inr rfl, by rw [here]; rfl⟩
  -- From the main thread, the slot goes to the new one.
  have unserved : ∀ other,
      (Function.update place .runServer .listening other).serves ≠ some i := by
    intro other serving
    have old := view_of_update Place.serves (.inr rfl) serving
    obtain rfl := booked.alone other .runServer i old serves
    rw [Function.update_self] at serving
    cases serving
  have still : Function.update place .runServer .listening (.processClient thread) =
      Place.absent := by
    rw [Function.update_of_ne (by simp), absent]
  refine listens.goto
    (listens.toServed.begin (booked.within .runServer i serves) unserved rfl rfl) ?_ ?_
  · rw [still]
    rfl
  · rw [still]
    rfl

end Booked

end Changes

section Runs

variable {st after final : State Thread} {action : Action Thread}

/-- At the beginning, the table is empty. -/
theorem Booked.start : (start : State Thread).Booked := by
  have idle : ∀ party : Party Thread, ((Chatroom.start : State Thread).place party).locked = false ∧
      ((Chatroom.start : State Thread).place party).serves = none ∧
      ((Chatroom.start : State Thread).place party).incoming = none := by
    intro party
    cases party <;> exact ⟨rfl, rfl, rfl⟩
  refine ⟨⟨fun party i serving => ?_, fun party other i serving => ?_,
    fun party clientFd arrives => ?_⟩, fun party => ?_, ?_⟩
  · rw [(idle party).2.1] at serving
    cases serving
  · rw [(idle party).2.1] at serving
    cases serving
  · rw [(idle party).2.2] at arrives
    cases arrives
  · rw [(idle party).1]
    simp [Chatroom.start]
  · simp [Chatroom.start, occupied]

/-- Where the counter lets a client in, there is a free slot. -/
theorem Booked.search_lt {clientFd : Int} (booked : st.Booked)
    (here : st.place .runServer = .admitting clientFd) (below : st.clientsCount < maxClients) :
    search st.clients < maxClients := by
  apply Chatroom.search_lt
  have counted := booked.counted_at here rfl
  simp only [Place.drift] at counted
  omega

variable [DecidableEq Thread]

/-- Every step keeps the table and the counter. -/
theorem Booked.step (booked : st.Booked) (step : Step st action after) : after.Booked := by
  cases step with
  | signal => exact booked
  | move moves => exact booked.similar moves.similar
  | lock free lock =>
    rw [State.Booked, free] at booked
    exact booked.lock (Place.locks_of_lock lock)
  | unlock unlock => exact booked.unlock (Place.unlocks_of_unlock unlock)
  | accept here natural _ =>
    refine booked.goto (booked.toServed.goto (.inr rfl) fun clientFd arrives => ?_) ?_ ?_
    · cases arrives
      exact natural
    · rw [here]
      rfl
    · rw [here]
      rfl
  | claim here _ found => exact booked.claim here found
  | miss here below missed => exact absurd (booked.search_lt here below) missed
  -- The client is in its slot already, and is counted now.
  | count here =>
    have counted := booked.counted_at here rfl
    simp only [Place.drift] at counted
    refine booked.change here rfl rfl (booked.toServed.goto (.inl ?_) fun _ => nofun) ?_
    · rw [here]
      rfl
    · show st.clientsCount + 1 = (occupied st.clients).card + 0
      omega
  | refuse here _ =>
    refine booked.similar ⟨?_, .inr rfl, .inr rfl, ?_⟩
    · rw [here]
      rfl
    · rw [here]
      rfl
  | create here absent => exact booked.create here absent
  | begin here _ _ => exact booked.similar (here ▸ ⟨rfl, .inl rfl, .inl rfl, rfl⟩)
  | put here _ _ _ => exact booked.similar (here ▸ ⟨rfl, .inl rfl, .inl rfl, rfl⟩)
  | close here => exact booked.similar (here ▸ ⟨rfl, .inl rfl, .inl rfl, rfl⟩)
  | clear here => exact booked.clear here
  -- Its slot is empty already.
  | uncount here =>
    have counted := booked.counted_at here rfl
    simp only [Place.drift] at counted
    refine booked.change here rfl rfl (booked.toServed.goto (.inr rfl) fun _ => nofun) ?_
    show st.clientsCount - 1 = (occupied st.clients).card + 0
    omega

/-- A descriptor waits for its slot as before, or has just come. -/
theorem Step.incoming {clientFd : Int} (step : Step st action after)
    (shown : (after.place .runServer).incoming = some clientFd) :
    (st.place .runServer).incoming = some clientFd ∨
      (action.event = .accept clientFd ∧ after.sockets clientFd ≠ none) := by
  cases step with
  | signal => exact .inl shown
  | move moves => exact .inl (view_of_update Place.incoming moves.similar.incoming shown)
  | lock _ lock =>
    exact .inl (view_of_update Place.incoming (Place.locks_of_lock lock).incoming shown)
  | unlock unlock =>
    exact .inl (view_of_update Place.incoming (.inr (Place.unlocks_of_unlock unlock).incoming) shown)
  | accept =>
    obtain rfl := Option.some.inj shown
    exact .inr ⟨rfl, by simp⟩
  | create =>
    -- Both the main thread and the new one have no descriptor on its way.
    simp only [State.goto] at shown
    have earlier := view_of_update Place.incoming (.inr rfl) shown
    exact .inl (view_of_update Place.incoming (.inr rfl) earlier)
  | claim | miss | count | refuse | begin | put | close | clear | uncount =>
    simp only [State.goto] at shown
    exact .inl (view_of_update Place.incoming (.inr rfl) shown)

variable {trace : List (Transition (State Thread) (Action Thread))}

/-- In every state that is reached, the table is right. -/
theorem booked_of_run (run : Run Step (start : State Thread) trace final) : final.Booked :=
  run.invariant .start fun _ _ _ booked step => booked.step step

/--
When the mutex is free, the counter is the number of the slots that are taken. A slot that is taken is
served by at most one thread, be it started or about to be started. When `run_server` lets a client
in, its search finds a free slot, and the index that a thread is created with, or serves, is in the
table.
-/
theorem clientsCount_eq_card (run : Run Step (start : State Thread) trace final) :
    (final.mutex = none → final.clientsCount = (occupied final.clients).card) ∧
    (∀ slot < maxClients, final.clients slot ≠ -1 → ∀ party other,
      (final.place party).serves = some slot → (final.place other).serves = some slot →
      party = other) ∧
    (∀ clientFd, final.place .runServer = .admitting clientFd → final.clientsCount < maxClients →
      search final.clients < maxClients ∧ final.clients (search final.clients) = -1) ∧
    (∀ party i, (final.place party).serves = some i → i < maxClients) := by
  have booked := booked_of_run run
  refine ⟨fun free => ?_, fun slot _ _ party other => booked.alone party other slot,
    fun clientFd here below => ?_, fun party i serving => (booked.within party i serving).1⟩
  · have counted := booked.counted
    rw [free] at counted
    simpa using counted
  · have found := booked.search_lt here below
    exact ⟨found, clients_search found⟩

/-- The first client is let in, and a thread is created for it. -/
theorem clientsCount_eq_card_first : ∃ final : State Unit, final.mutex = none ∧
    final.clientsCount = 1 ∧ final.clientsCount = (occupied final.clients).card := by
  have listening := Run.start.next (@Step.move Unit _ start .runServer _ _ (.listen rfl))
  have accepted := listening.next (@Step.accept _ _ _ 4 rfl (by decide) rfl)
  have locked := accepted.next (@Step.lock _ _ _ .runServer _ rfl rfl)
  have claimed := locked.next (@Step.claim _ _ _ 4 rfl (by decide) (by decide))
  have unlocked := (claimed.next (.count rfl)).next (@Step.unlock _ _ _ .runServer _ rfl)
  have run := unlocked.next (@Step.create _ _ _ () _ rfl rfl)
  exact ⟨_, rfl, rfl, (clientsCount_eq_card run).1 rfl⟩

end Runs

end SystemProgramming.Chatroom
