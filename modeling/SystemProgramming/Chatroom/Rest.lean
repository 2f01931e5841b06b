import SystemProgramming.Chatroom.Slots
import SystemProgramming.Foundations.Potential
import Mathlib.Data.Fintype.Option

/-! The chat server comes to rest, and only in a write can it keep the mutex. -/

namespace SystemProgramming.Chatroom

open Foundations

/--
How many steps may follow from what comes from outside: a signal, a client that connects, or what a
client sends and takes. The steps of the server itself cost nothing.
-/
def Event.price : Event → Nat
  | .accept _ => 13
  | .read _ => 33
  | .hangup => 6
  | .signal | .put _ | .zero | .retry => 1
  | _ => 0

/-- How many steps a thread can still make on its own, with those of a thread that it creates. -/
def Place.weight : Place → Nat
  | .listening => 1
  | .accepting => 0
  | .accepted _ => 12
  | .admitting _ => 11
  | .counting _ => 10
  | .admitted _ => 9
  | .creating _ => 8
  | .refused => 2
  | .stopped => 0
  | .absent => 0
  | .checking _ => 6
  | .reading _ => 0
  | .sending .. => 32
  | .visiting _ _ slot => 3 * (maxClients - slot) + 7
  | .writing _ _ slot .size _ _ => 3 * (maxClients - (slot + 1)) + 9
  | .writing _ _ slot .payload _ _ => 3 * (maxClients - (slot + 1)) + 8
  | .leaving _ => 5
  | .closed _ => 4
  | .clearing _ => 3
  | .cleared => 2
  | .uncounted => 1
  | .finished => 0

section Weights

variable {clients : Nat → Int} {endSession : Bool} {place next : Place} {event : Event}

/-- A step that changes nothing else takes from what the thread can still do, or costs something. -/
theorem Moves.weight_falls (moves : Moves clients endSession place event next) :
    next.weight + 1 ≤ place.weight + event.price := by
  -- A skipped slot takes from the slots that are left; a finished write, from its part.
  cases moves with
  | skip below _ => simp only [Place.weight, Event.price]; omega
  | @zero _ _ _ _ part => cases part <;> simp only [Place.weight, Event.price] <;> omega
  | @retry _ _ _ _ part => cases part <;> simp [Place.weight, Event.price]
  | payload => simp [Place.weight, Event.price]
  | done => simp [Place.weight, Event.price]
  | _ => simp [Place.weight, Event.price]

/-- So does locking the mutex. -/
theorem Place.weight_lock (lock : place.lock = some next) : next.weight + 1 ≤ place.weight := by
  rcases Place.lock_cases lock with ⟨_, rfl, rfl⟩ | ⟨_, _, rfl, rfl⟩ | ⟨_, rfl, rfl⟩ <;>
    simp [Place.weight, maxClients]

/-- And unlocking it. -/
theorem Place.weight_unlock (unlock : place.unlock = some next) :
    next.weight + 1 ≤ place.weight := by
  rcases Place.unlock_cases unlock with ⟨_, rfl, rfl⟩ | ⟨rfl, rfl⟩ | ⟨_, _, _, _, rfl, rfl⟩ |
    ⟨rfl, rfl⟩ <;> simp [Place.weight]

end Weights

variable {Thread : Type*}

/-- The main thread, and the others. -/
instance Party.fintype [Fintype Thread] : Fintype (Party Thread) :=
  Fintype.ofEquiv (Option Thread)
    { toFun := fun thread => thread.elim .runServer .processClient
      invFun := fun party => match party with
        | .runServer => none
        | .processClient thread => some thread
      left_inv := fun thread => by cases thread <;> rfl
      right_inv := fun party => by cases party <;> rfl }

section Bound

variable [DecidableEq Thread] [Fintype Thread] {st after final : State Thread}
  {action : Action Thread} {party : Party Thread} {next : Place} {price : Nat}

/-- A thread that goes on at a price takes from what all can still do, but for the price. -/
theorem weight_goto (less : next.weight + 1 ≤ (st.place party).weight + price) :
    total Place.weight (st.goto party next).place + 1 ≤ total Place.weight st.place + price :=
  total_update_le less

/-- Every step takes from what the threads can still do, or costs something. -/
theorem Step.weight_falls (step : Step st action after) :
    total Place.weight after.place + 1 ≤ total Place.weight st.place + action.event.price := by
  -- The places are ordered by the way of the source, so most steps take one.
  cases step with
  | signal => exact Nat.le_refl _
  | move moves => exact weight_goto moves.weight_falls
  | lock _ lock => exact weight_goto (Place.weight_lock lock)
  | unlock unlock => exact weight_goto (Place.weight_unlock unlock)
  | accept here | claim here | count here | close here | clear here | uncount here =>
    apply weight_goto
    rw [here]
    exact Nat.le_refl _
  | miss here | refuse here =>
    apply weight_goto
    simp [here, Place.weight, Event.price]
  | @create thread i here absent =>
    -- What the new thread may have to do is left over from the main thread.
    have created := total_update Place.weight st.place .runServer .listening
    have still : Function.update st.place .runServer .listening (.processClient thread) = .absent :=
      (Function.update_of_ne (by simp) _ _).trans absent
    have checks := total_update Place.weight (Function.update st.place .runServer .listening)
      (.processClient thread) (.checking i)
    rw [still] at checks
    rw [here] at created
    simp only [Place.weight, State.goto, Event.price] at created checks ⊢
    omega
  | begin here below _ =>
    apply weight_goto
    rw [here]
    simp only [Place.weight, Event.price]
    omega
  | @put _ _ _ _ _ _ part _ _ here _ _ _ =>
    apply weight_goto
    rw [here]
    cases part <;> exact Nat.le_refl _

end Bound

/-- The places of the main thread. -/
def Place.ofMain : Place → Bool
  | .listening | .accepting | .accepted _ | .admitting _ | .counting _ | .admitted _ => true
  | .creating _ | .refused | .stopped => true
  | _ => false

section Kinds

variable {clients : Nat → Int} {endSession : Bool} {place next : Place} {event : Event}

/-- A thread stays in its own function. -/
theorem Moves.ofMain (moves : Moves clients endSession place event next) :
    next.ofMain = place.ofMain := by
  cases moves <;> rfl

theorem Place.ofMain_lock (lock : place.lock = some next) : next.ofMain = place.ofMain := by
  rcases Place.lock_cases lock with ⟨_, rfl, rfl⟩ | ⟨_, _, rfl, rfl⟩ | ⟨_, rfl, rfl⟩ <;> rfl

theorem Place.ofMain_unlock (unlock : place.unlock = some next) : next.ofMain = place.ofMain := by
  rcases Place.unlock_cases unlock with ⟨_, rfl, rfl⟩ | ⟨rfl, rfl⟩ | ⟨_, _, _, _, rfl, rfl⟩ |
    ⟨rfl, rfl⟩ <;> rfl

/-- A thread that waits for its client, or is not there. -/
def Idle (place : Place) : Prop :=
  place = .absent ∨ place = .finished ∨ ∃ slot, place = .reading slot

/-- It does not hold the mutex. -/
theorem Idle.free {place : Place} (idle : Idle place) : place.locked = false := by
  rcases idle with rfl | rfl | ⟨slot, rfl⟩ <;> rfl

/-- If it has a slot, then it waits for the client there. -/
theorem Idle.reads {place : Place} {slot : Nat} (idle : Idle place)
    (serves : place.serves = some slot) : place = .reading slot := by
  rcases idle with rfl | rfl | ⟨client, rfl⟩
  · cases serves
  · cases serves
  · exact congrArg Place.reading (Option.some.inj serves)

/-- While the main thread waits for a client, or has stopped, it has no slot. -/
theorem main_serves_none {party : Party Thread} {place : Party Thread → Place} {slot : Nat}
    (main : place .runServer = .accepting ∨ place .runServer = .stopped)
    (serves : (place party).serves = some slot) : ∃ thread, party = .processClient thread := by
  cases party with
  | processClient thread => exact ⟨thread, rfl⟩
  | runServer => rcases main with here | here <;> rw [here] at serves <;> cases serves

end Kinds

section Runs

variable [DecidableEq Thread] {st after final : State Thread} {action : Action Thread}
  {party : Party Thread} {next : Place} {trace : List (Transition (State Thread) (Action Thread))}

theorem goto_place : (st.goto party next).place party = next := Function.update_self _ _ _

theorem goto_place_of_ne {other : Party Thread} (apart : other ≠ party) :
    (st.goto party next).place other = st.place other := Function.update_of_ne apart _ _

/-- The main thread is in `run_server`, and all others are not. -/
def Housed (st : State Thread) : Prop :=
  ∀ party, (st.place party).ofMain = true ↔ party = .runServer

/-- A thread that stays in its function leaves all in theirs. -/
theorem Housed.goto (housed : Housed st) (same : next.ofMain = (st.place party).ofMain) :
    Housed (st.goto party next) := by
  intro other
  -- Where the others are does not change.
  by_cases mine : other = party
  · subst mine
    rw [goto_place, same]
    exact housed other
  · rw [goto_place_of_ne mine]
    exact housed other

/-- Every step leaves the threads in their functions. -/
theorem Housed.step (housed : Housed st) (step : Step st action after) : Housed after := by
  cases step with
  | signal => exact housed
  | move moves => exact housed.goto moves.ofMain
  | lock _ lock => exact housed.goto (Place.ofMain_lock lock)
  | unlock unlock => exact housed.goto (Place.ofMain_unlock unlock)
  | create here absent =>
    -- A thread that was not there is outside `run_server`, and its first place is too.
    have listens : Housed (st.goto .runServer .listening) := housed.goto (by rw [here]; rfl)
    refine listens.goto ?_
    rw [goto_place_of_ne (by simp), absent]
    rfl
  | accept here | claim here | miss here | count here | refuse here | begin here | put here
  | close here | clear here | uncount here => exact housed.goto (by rw [here]; rfl)

/-- In every state that is reached, the threads are in their functions. -/
theorem housed_of_run (run : Run Step (start : State Thread) trace final) : Housed final := by
  refine run.invariant (fun party => ?_) fun _ _ _ housed step => housed.step step
  cases party <;> simp [start, Place.ofMain]

/-- Every taken slot has a thread that serves it, or the main thread is about to create one. -/
def Manned (clients : Nat → Int) (place : Party Thread → Place) : Prop :=
  ∀ slot < maxClients, clients slot ≠ -1 → ∃ party, (place party).serves = some slot

section Slots

variable {clients : Nat → Int} {place : Party Thread → Place}

/-- A thread that goes on and keeps its slot leaves the slots manned. -/
theorem Manned.goto (manned : Manned clients place)
    (keeps : ∀ slot, (place party).serves = some slot → next.serves = some slot) :
    Manned clients (Function.update place party next) := by
  intro slot within taken
  obtain ⟨server, serves⟩ := manned slot within taken
  refine ⟨server, ?_⟩
  -- The thread keeps its slot, and the other threads keep theirs.
  by_cases mine : server = party
  · subst mine
    rw [Function.update_self]
    exact keeps slot serves
  · rwa [Function.update_of_ne mine]

/-- The main thread takes a slot, which it serves from now on. -/
theorem Manned.claim {clientFd : Int} {i : Nat} (manned : Manned clients place)
    (here : place .runServer = .admitting clientFd) :
    Manned (Function.update clients i clientFd)
      (Function.update place .runServer (.counting i)) := by
  intro slot within taken
  by_cases mine : slot = i
  · exact ⟨.runServer, by rw [Function.update_self, mine]; rfl⟩
  · -- It served none before, so that the other slots are served by other threads.
    rw [Function.update_of_ne mine] at taken
    obtain ⟨server, serves⟩ := manned slot within taken
    refine ⟨server, ?_⟩
    rw [Function.update_of_ne]
    · exact serves
    · rintro rfl
      rw [here] at serves
      cases serves

/-- A thread frees its slot. -/
theorem Manned.clear {i : Nat} (manned : Manned clients place)
    (here : place party = .clearing i) :
    Manned (Function.update clients i (-1)) (Function.update place party .cleared) := by
  intro slot within taken
  -- The slot is free now, so it needs nobody.
  have apart : slot ≠ i := by
    rintro rfl
    exact taken (Function.update_self _ _ _)
  rw [Function.update_of_ne apart] at taken
  obtain ⟨server, serves⟩ := manned slot within taken
  refine ⟨server, ?_⟩
  rw [Function.update_of_ne]
  · exact serves
  · rintro rfl
    rw [here] at serves
    exact apart (Option.some.inj serves).symm

end Slots

/-- A step of a thread alone keeps its slot, unless the thread for it was not created. -/
theorem Moves.serves {clients : Nat → Int} {endSession : Bool} {place next : Place} {event : Event}
    (moves : Moves clients endSession place event next) (created : event ≠ .createFailed) :
    next.serves = place.serves := by
  cases moves with
  | createFailed => exact absurd rfl created
  | _ => rfl

/-- Where all threads are created, every step leaves the slots manned. -/
theorem Manned.step (manned : Manned st.clients st.place) (booked : st.Booked)
    (step : Step st action after) (created : action.event ≠ .createFailed) :
    Manned after.clients after.place := by
  cases step with
  | signal => exact manned
  | move moves => exact manned.goto fun slot serves => (moves.serves created).trans serves
  | lock _ lock =>
    exact manned.goto fun slot serves => (Place.locks_of_lock lock).serves.trans serves
  | unlock unlock =>
    -- Where a thread unlocks the mutex, it serves its slot before and behind it, or none.
    refine manned.goto fun slot serves => ?_
    rcases Place.unlock_cases unlock with ⟨_, here, rfl⟩ | ⟨here, rfl⟩ | ⟨_, _, _, _, here, rfl⟩ |
      ⟨here, rfl⟩ <;> rw [here] at serves
    · exact serves
    · cases serves
    · exact serves
    · cases serves
  | claim here => exact manned.claim here
  | miss here below missed => exact absurd (booked.search_lt here below) missed
  | create here absent =>
    -- The new thread takes over the slot of the main thread.
    rename_i thread i
    intro slot within taken
    obtain ⟨server, serves⟩ := manned slot within taken
    by_cases mine : server = .runServer
    · subst mine
      rw [here] at serves
      exact ⟨.processClient thread, by rw [goto_place]; exact serves⟩
    · by_cases new : server = .processClient thread
      · subst new
        rw [absent] at serves
        cases serves
      · exact ⟨server, by rwa [goto_place_of_ne new, goto_place_of_ne mine]⟩
  | clear here => exact manned.clear here
  | count here | begin here | put here | close here =>
    exact manned.goto fun slot serves => by rw [here] at serves; exact serves
  | accept here | refuse here | uncount here =>
    exact manned.goto fun slot serves => by rw [here] at serves; cases serves

/-- Where all threads are created, the slots are manned in every state that is reached. -/
theorem manned_of_run (run : Run Step (start : State Thread) trace final)
    (created : ∀ taken ∈ trace, taken.action.event ≠ .createFailed) :
    Manned final.clients final.place := by
  induction run with
  | start => exact fun slot _ taken => absurd rfl taken
  | next earlier step ih =>
    have before := ih fun taken member => created taken (List.mem_append_left _ member)
    exact before.step (booked_of_run earlier) step
      (created _ (List.mem_append_right _ (List.mem_singleton_self _)))

/-- No thread can go on, unless something comes from outside. -/
def AtRest (st : State Thread) : Prop :=
  ∀ action after, Step st action after → 0 < action.event.price

/-- Where none can still make steps on its own, that is so. -/
theorem atRest_of_weight [Fintype Thread] (spent : ∀ party, (st.place party).weight = 0) :
    AtRest st := by
  intro action after step
  have falls := step.weight_falls
  have none : total Place.weight st.place = 0 := Finset.sum_eq_zero fun party _ => spent party
  omega

/-- Nor on its own. -/
theorem AtRest.move {place : Place} {event : Event} (rest : AtRest st)
    (here : st.place party = place) (moves : Moves st.clients st.endSession place event next) :
    0 < event.price := rest ⟨party, event⟩ _ (.move (here ▸ moves))

/-- Then none is about to unlock the mutex. -/
theorem AtRest.no_unlock {place : Place} (rest : AtRest st) (here : st.place party = place)
    (unlock : place.unlock = some next) : False :=
  Nat.lt_irrefl 0 (rest ⟨party, .unlock⟩ _ (.unlock (here ▸ unlock)))

/-- And one that is about to lock it has to wait. -/
theorem AtRest.waits {place : Place} (rest : AtRest st) (here : st.place party = place)
    (lock : place.lock = some next) : st.mutex ≠ none := fun free =>
  Nat.lt_irrefl 0 (rest ⟨party, .lock⟩ _ (.lock free (here ▸ lock)))

/-- Where no thread can go on, the main thread waits for a client, or it waits for the mutex. -/
theorem AtRest.main (rest : AtRest st) (housed : Housed st) :
    st.place .runServer = .accepting ∨ st.place .runServer = .stopped ∨
      (st.mutex ≠ none ∧ ∃ clientFd, st.place .runServer = .accepted clientFd) := by
  have kind := (housed .runServer).mpr rfl
  -- Each place but three has a step that costs nothing.
  cases here : st.place .runServer with
  | listening =>
    cases ended : st.endSession with
    | false => exact absurd (rest.move here (.listen ended)) (Nat.lt_irrefl 0)
    | true => exact absurd (rest.move here (.stop ended)) (Nat.lt_irrefl 0)
  | accepting => exact .inl rfl
  | stopped => exact .inr (.inl rfl)
  | accepted clientFd =>
    exact .inr (.inr ⟨rest.waits here rfl, clientFd, rfl⟩)
  | admitting clientFd =>
    -- With the mutex held, the client is let in or refused.
    by_cases room : st.clientsCount < maxClients
    · by_cases found : search st.clients < maxClients
      · exact absurd (rest _ _ (.claim here room found)) (Nat.lt_irrefl 0)
      · exact absurd (rest _ _ (.miss here room found)) (Nat.lt_irrefl 0)
    · exact absurd (rest _ _ (.refuse here room)) (Nat.lt_irrefl 0)
  | counting i => exact absurd (rest _ _ (.count here)) (Nat.lt_irrefl 0)
  | admitted i => exact (rest.no_unlock here rfl).elim
  | creating i => exact absurd (rest.move here .createFailed) (Nat.lt_irrefl 0)
  | refused => exact (rest.no_unlock here rfl).elim
  | _ =>
    rw [here] at kind
    cases kind

/-- Another thread waits for its client or for the mutex, or it has something to write. -/
theorem AtRest.client (rest : AtRest st) (housed : Housed st) (thread : Thread) :
    Idle (st.place (.processClient thread)) ∨
      (st.mutex ≠ none ∧ (st.place (.processClient thread)).locked = false) ∨
      ∃ clientId message slot part socket left, st.place (.processClient thread) =
        .writing clientId message slot part socket left ∧ left ≠ [] := by
  have kind := housed (.processClient thread)
  -- A write needs its client, and the other places only the mutex, or nothing.
  cases here : st.place (.processClient thread) with
  | absent => exact .inl (.inl rfl)
  | finished => exact .inl (.inr (.inl rfl))
  | reading slot => exact .inl (.inr (.inr ⟨slot, rfl⟩))
  | checking clientId =>
    cases ended : st.endSession with
    | false => exact absurd (rest.move here (.enter ended)) (Nat.lt_irrefl 0)
    | true => exact absurd (rest.move here (.exit ended)) (Nat.lt_irrefl 0)
  | sending clientId message =>
    exact .inr (.inl ⟨rest.waits here rfl, rfl⟩)
  | visiting clientId message slot =>
    by_cases within : slot < maxClients
    · by_cases taken : st.clients slot = -1
      · exact absurd (rest.move here (.skip within taken)) (Nat.lt_irrefl 0)
      · exact absurd (rest _ _ (.begin here within taken)) (Nat.lt_irrefl 0)
    · exact (rest.no_unlock here (by rw [Place.unlock, if_neg within])).elim
  | writing clientId message slot part socket left =>
    refine .inr (.inr ⟨clientId, message, slot, part, socket, left, rfl, ?_⟩)
    -- A part that is written to its end is left at once.
    rintro rfl
    cases part with
    | size => exact absurd (rest.move here .payload) (Nat.lt_irrefl 0)
    | payload => exact absurd (rest.move here .done) (Nat.lt_irrefl 0)
  | leaving clientId => exact absurd (rest _ _ (.close here)) (Nat.lt_irrefl 0)
  | closed clientId =>
    exact .inr (.inl ⟨rest.waits here rfl, rfl⟩)
  | clearing clientId => exact absurd (rest _ _ (.clear here)) (Nat.lt_irrefl 0)
  | cleared => exact absurd (rest _ _ (.uncount here)) (Nat.lt_irrefl 0)
  | uncounted => exact (rest.no_unlock here rfl).elim
  | _ =>
    rw [here] at kind
    cases kind.mp rfl

/--
The server comes to rest: it makes no more steps than are paid for by the clients that connect, what
they send and take, and the signals. Then the mutex is free, the main thread waits for a client or has
stopped, each other thread waits for its client or is not there, and, if no creation of a thread has
failed, each taken slot has one thread that reads from its client; or a thread has the mutex and is
in the middle of a write.
-/
theorem chat_comes_to_rest [Fintype Thread]
    (run : Run Step (start : State Thread) trace final) :
    trace.length ≤ 1 + (trace.map fun taken => taken.action.event.price).sum ∧
      (AtRest final →
        (final.mutex = none ∧ final.clientsCount = (occupied final.clients).card ∧
          (final.place .runServer = .accepting ∨ final.place .runServer = .stopped) ∧
          (∀ thread, Idle (final.place (.processClient thread))) ∧
          ((∀ taken ∈ trace, taken.action.event ≠ .createFailed) → ∀ slot < maxClients,
            final.clients slot ≠ -1 →
              ∃! thread, final.place (.processClient thread) = .reading slot)) ∨
        ∃ thread clientId message slot part socket left,
          final.mutex = some (.processClient thread) ∧
          final.place (.processClient thread) =
            .writing clientId message slot part socket left ∧ left ≠ []) := by
  constructor
  · have bound := @Run.length_le_paid _ _ _ _ _ _ (fun st => total Place.weight st.place)
      (fun action => action.event.price) run fun _ _ _ => Step.weight_falls
    -- Only the main thread has a step at first.
    have listening : total Place.weight (start : State Thread).place = 1 := by
      rw [total, Finset.sum_eq_single .runServer]
      · rfl
      · intro party _ apart
        cases party with
        | runServer => exact absurd rfl apart
        | processClient thread => rfl
      · exact fun absent => absurd (Finset.mem_univ _) absent
    omega
  · intro rest
    have housed := housed_of_run run
    have booked := booked_of_run run
    cases mutex : final.mutex with
    | none =>
      -- Nobody waits for the mutex, and nobody writes.
      have main : final.place .runServer = .accepting ∨ final.place .runServer = .stopped := by
        rcases rest.main housed with accepts | stopped | ⟨held, _⟩
        · exact .inl accepts
        · exact .inr stopped
        · exact absurd mutex held
      have idle : ∀ thread, Idle (final.place (.processClient thread)) := by
        intro thread
        rcases rest.client housed thread with idle | ⟨held, _⟩ | ⟨_, _, _, _, _, _, writes, _⟩
        · exact idle
        · exact absurd mutex held
        · have holds := (booked.holder _).mp (by rw [writes]; rfl)
          rw [mutex] at holds
          cases holds
      refine .inl ⟨rfl, ?_, main, idle, fun created slot within taken => ?_⟩
      · simpa [mutex] using booked.counted
      · -- The thread that serves the slot is not the main thread, and so it reads.
        obtain ⟨party, serves⟩ := manned_of_run run created slot within taken
        obtain ⟨thread, rfl⟩ := main_serves_none main serves
        refine ⟨thread, (idle thread).reads serves, fun other reads => ?_⟩
        have same := booked.alone (.processClient other) _ slot (by rw [reads]; rfl) serves
        cases same
        rfl
    | some party =>
      -- Who has the mutex is at a place behind a lock, and there only a write can stop it.
      have locked := (booked.holder party).mpr mutex
      right
      cases party with
      | runServer =>
        rcases rest.main housed with here | here | ⟨_, _, here⟩ <;> rw [here] at locked <;>
          cases locked
      | processClient thread =>
        rcases rest.client housed thread with idle | ⟨_, free⟩ | ⟨_, _, _, _, _, _, writes, left⟩
        · rw [idle.free] at locked
          cases locked
        · rw [free] at locked
          cases locked
        · exact ⟨thread, _, _, _, _, _, _, rfl, writes, left⟩

/-- The first client is let in, and both threads wait for a client. -/
theorem chat_comes_to_rest_first : ∃ final : State Unit, final.mutex = none ∧
    final.clientsCount = (occupied final.clients).card ∧ final.clients 0 = 4 ∧
    ∃! thread, final.place (.processClient thread) = .reading 0 := by
  have listening := Run.start.next (@Step.move Unit _ start .runServer _ _ (.listen rfl))
  have accepted := listening.next (@Step.accept _ _ _ 4 rfl (by decide) rfl)
  have locked := accepted.next (@Step.lock _ _ _ .runServer _ rfl rfl)
  have claimed := locked.next (@Step.claim _ _ _ 4 rfl (by decide) (by decide))
  have unlocked := (claimed.next (.count rfl)).next (@Step.unlock _ _ _ .runServer _ rfl)
  have created := unlocked.next (@Step.create _ _ _ () _ rfl rfl)
  have again := created.next (@Step.move _ _ _ .runServer _ _ (.listen rfl))
  have run := again.next (@Step.move _ _ _ (.processClient ()) _ _ (.enter rfl))
  have ends := (chat_comes_to_rest run).2 <| atRest_of_weight fun party => by
    cases party with
    | runServer => rfl
    | processClient thread => rfl
  rcases ends with ⟨free, counted, _, _, served⟩ | ⟨_, _, _, _, _, _, _, held, _⟩
  · exact ⟨_, free, counted, rfl, served (by simp) 0 (by decide) (by decide)⟩
  · cases held

end Runs

end SystemProgramming.Chatroom
