import Mathlib.Data.Fintype.Card
import SystemProgramming.Foundations.Runs

/-!
The reusable barrier: no thread gets ahead of the others, unless its one call of `pthread_cond_wait`
returns with no broadcast.
-/

namespace SystemProgramming.Barriers

open Foundations

/-- A `barrier_t`; the counters are taken to be large enough. -/
structure Barrier where
  nThreads : Nat
  count : Nat
  timesUsed : Nat
  deriving DecidableEq, Repr

/-- `barrier_init`. -/
def barrierInit (numThreads : Nat) : Barrier where
  nThreads := numThreads
  count := 0
  timesUsed := 0

/-- Where a thread is. -/
inductive Place where
  /-- In no call. -/
  | outside
  /-- In `barrier_wait`, about to lock the barrier for the first time. -/
  | entering
  /-- In `pthread_cond_wait`, with no broadcast since it began. -/
  | parked
  /-- In `pthread_cond_wait`, after a broadcast. -/
  | woken
  deriving DecidableEq, Repr

/-- What a broadcast does to a thread. -/
def Place.broadcast : Place → Place
  | parked => woken
  | place => place

/-- The barrier and its threads, with the number of calls that each thread has begun, has been
counted in, and has returned from. -/
structure State (Thread : Type*) where
  barrier : Barrier
  place : Thread → Place
  called : Thread → Nat
  entered : Thread → Nat
  returned : Thread → Nat

variable {Thread : Type*}

/-- A new barrier, with all threads outside. -/
def start (numThreads : Nat) : State Thread where
  barrier := barrierInit numThreads
  place _ := .outside
  called _ := 0
  entered _ := 0
  returned _ := 0

/-- What a thread does in one step. -/
inductive Event where
  | call
  | wait
  | release
  | wake
  | spurious
  deriving DecidableEq, Repr

/-- A step of one thread. -/
structure Action (Thread : Type*) where
  thread : Thread
  event : Event
  deriving DecidableEq, Repr

section Steps

variable [DecidableEq Thread]

/-- A thread is one call further. -/
def further (calls : Thread → Nat) (thread : Thread) : Thread → Nat :=
  Function.update calls thread (calls thread + 1)

/-- A thread gets the lock back after its wait, unlocks the barrier and returns. -/
def State.leave (st : State Thread) (thread : Thread) : State Thread :=
  { st with
    place := Function.update st.place thread .outside
    returned := further st.returned thread }

/--
The steps of the threads. The lock is held from its acquisition to the wait or to the end of the
function, so that each of these stretches is one step. A thread whose wait ends without a broadcast
competes for the lock as the others do: if there is a broadcast before it gets the lock, it was that
broadcast that ended the wait.
-/
inductive Step : State Thread → Action Thread → State Thread → Prop
  | call {st : State Thread} {thread : Thread} :
      st.place thread = .outside →
      Step st ⟨thread, .call⟩
        { st with
          place := Function.update st.place thread .entering
          called := further st.called thread }
  | wait {st : State Thread} {thread : Thread} :
      st.place thread = .entering → st.barrier.count + 1 < st.barrier.nThreads →
      Step st ⟨thread, .wait⟩
        { st with
          barrier := { st.barrier with count := st.barrier.count + 1 }
          place := Function.update st.place thread .parked
          entered := further st.entered thread }
  | release {st : State Thread} {thread : Thread} :
      st.place thread = .entering → ¬ st.barrier.count + 1 < st.barrier.nThreads →
      Step st ⟨thread, .release⟩
        { st with
          barrier := { st.barrier with count := 0, timesUsed := st.barrier.timesUsed + 1 }
          place := Function.update (fun other => (st.place other).broadcast) thread .outside
          entered := further st.entered thread
          returned := further st.returned thread }
  | wake {st : State Thread} {thread : Thread} :
      st.place thread = .woken → Step st ⟨thread, .wake⟩ (st.leave thread)
  | spurious {st : State Thread} {thread : Thread} :
      st.place thread = .parked → Step st ⟨thread, .spurious⟩ (st.leave thread)

end Steps

/--
No thread has returned from more calls than each thread has entered, and a round, which all threads
have entered, is completed exactly if it is one of the first `times_used`.
-/
structure InStep (st : State Thread) : Prop where
  together : ∀ thread other, st.returned thread ≤ st.entered other
  rounds : ∀ round, (∀ thread, round ≤ st.entered thread) ↔ round ≤ st.barrier.timesUsed

/--
What a thread at a place has done once so many rounds are completed: one that waits for the others
is counted in for the next round, and one that waits or is about to leave has not returned.
-/
structure Fits (rounds : Nat) (place : Place) (called entered returned : Nat) : Prop where
  entry : entered = if place = .parked then rounds + 1 else rounds
  exit : entered = if place = .parked ∨ place = .woken then returned + 1 else returned
  begun : called = if place = .entering then entered + 1 else entered

variable {rounds called entered returned : Nat} {place : Place}

/-- A thread calls. -/
theorem Fits.call (fits : Fits rounds .outside called entered returned) :
    Fits rounds .entering (called + 1) entered returned where
  entry := fits.entry
  exit := fits.exit
  begun := congrArg (· + 1) fits.begun

/-- A thread is counted and waits. -/
theorem Fits.wait (fits : Fits rounds .entering called entered returned) :
    Fits rounds .parked called (entered + 1) returned where
  entry := congrArg (· + 1) fits.entry
  exit := congrArg (· + 1) fits.exit
  begun := fits.begun

/-- The last thread of a round is counted and returns at once. -/
theorem Fits.release (fits : Fits rounds .entering called entered returned) :
    Fits (rounds + 1) .outside called (entered + 1) (returned + 1) where
  entry := congrArg (· + 1) fits.entry
  exit := congrArg (· + 1) fits.exit
  begun := fits.begun

/-- A thread that waits is woken at the end of the round. -/
theorem Fits.broadcast (fits : Fits rounds .parked called entered returned) :
    Fits (rounds + 1) .woken called entered returned where
  entry := fits.entry
  exit := fits.exit
  begun := fits.begun

/-- A thread returns from its wait. -/
theorem Fits.wake (fits : Fits rounds .woken called entered returned) :
    Fits rounds .outside called entered (returned + 1) where
  entry := fits.entry
  exit := fits.exit
  begun := fits.begun

/-- A thread has returned from completed rounds only. -/
theorem Fits.returned_le (fits : Fits rounds place called entered returned) :
    returned ≤ rounds := by
  have entry := fits.entry
  have exit := fits.exit
  cases place <;> simp at entry exit <;> omega

/-- A thread has entered all completed rounds. -/
theorem Fits.le_entered (fits : Fits rounds place called entered returned) :
    rounds ≤ entered := by
  rw [fits.entry]
  split <;> omega

section Rounds

variable [Fintype Thread]

/-- The threads that wait for the others. -/
def waiting (place : Thread → Place) : Finset Thread := {thread | place thread = .parked}

@[simp] theorem mem_waiting (place : Thread → Place) (thread : Thread) :
    thread ∈ waiting place ↔ place thread = .parked := by
  simp [waiting]

/-- The barrier counts the threads that wait, fewer than all, and every thread fits in. -/
structure Regular (st : State Thread) : Prop where
  threads : st.barrier.nThreads = Fintype.card Thread
  counts : st.barrier.count = (waiting st.place).card
  room : st.barrier.count < st.barrier.nThreads
  fits : ∀ thread, Fits st.barrier.timesUsed (st.place thread) (st.called thread)
    (st.entered thread) (st.returned thread)

variable {st after final : State Thread} {action : Action Thread}

/-- In a new barrier, no thread waits. -/
theorem Regular.init [Nonempty Thread] : Regular (start (Fintype.card Thread) : State Thread) where
  threads := rfl
  counts := by
    symm
    simp [start, waiting, barrierInit]
  room := Fintype.card_pos
  fits _ := ⟨rfl, rfl, rfl⟩

/-- Some thread has entered the completed rounds only. -/
theorem Regular.exists_behind (regular : Regular st) :
    ∃ thread, st.entered thread = st.barrier.timesUsed := by
  -- Fewer threads wait than there are.
  have fewer : (waiting st.place).card < (Finset.univ : Finset Thread).card := by
    rw [Finset.card_univ, ← regular.counts, ← regular.threads]
    exact regular.room
  obtain ⟨thread, _, free⟩ := Finset.exists_mem_notMem_of_card_lt_card fewer
  rw [mem_waiting] at free
  exact ⟨thread, by rw [(regular.fits thread).entry, if_neg free]⟩

/-- Then no thread is ahead of the others. -/
theorem Regular.inStep (regular : Regular st) : InStep st := by
  constructor
  · intro thread other
    exact (regular.fits thread).returned_le.trans (regular.fits other).le_entered
  · intro round
    constructor
    · intro all
      obtain ⟨thread, behind⟩ := regular.exists_behind
      exact behind ▸ all thread
    · intro completed thread
      exact completed.trans (regular.fits thread).le_entered

variable [DecidableEq Thread]

/-- A thread that neither begins nor ends a wait for the others. -/
theorem waiting_update {place : Thread → Place} {thread : Thread} {next : Place}
    (before : place thread ≠ .parked) (after : next ≠ .parked) :
    waiting (Function.update place thread next) = waiting place := by
  ext other
  by_cases same : other = thread
  · subst same
    simp [before, after]
  · simp [same]

/-- A thread that begins to wait is one more. -/
theorem waiting_park {place : Thread → Place} {thread : Thread} :
    waiting (Function.update place thread .parked) = insert thread (waiting place) := by
  ext other
  by_cases same : other = thread
  · simp [same]
  · simp [same]

/-- After a broadcast, nobody waits for the others. -/
theorem waiting_broadcast (place : Thread → Place) (thread : Thread) :
    waiting (Function.update (fun other => (place other).broadcast) thread .outside) = ∅ := by
  ext other
  by_cases same : other = thread
  · simp [same]
  · cases here : place other <;> simp [same, here, Place.broadcast]

/-- A thread that is not counted is outside of those that wait. -/
theorem Regular.count_succ {thread : Thread} (regular : Regular st)
    (entering : st.place thread = .entering) :
    (insert thread (waiting st.place)).card = st.barrier.count + 1 := by
  rw [Finset.card_insert_of_notMem (by simp [entering]), regular.counts]

/-- When the last thread of a round comes, all others wait. -/
theorem Regular.others_wait {thread other : Thread} (regular : Regular st)
    (entering : st.place thread = .entering)
    (last : ¬ st.barrier.count + 1 < st.barrier.nThreads) (apart : other ≠ thread) :
    st.place other = .parked := by
  have all : insert thread (waiting st.place) = Finset.univ := by
    apply Finset.eq_univ_of_card
    have bounded := Finset.card_le_univ (insert thread (waiting st.place))
    have counted := regular.count_succ entering
    have threads := regular.threads
    omega
  have member : other ∈ insert thread (waiting st.place) := all ▸ Finset.mem_univ other
  simpa [apart] using member

/-- Every step but a spurious end of a wait leaves everything regular. -/
theorem Regular.step (regular : Regular st) (step : Step st action after)
    (meets : action.event ≠ .spurious) : Regular after := by
  cases step with
  | @call thread outside =>
    refine ⟨regular.threads, ?_, regular.room, ?_⟩
    · show st.barrier.count = (waiting (Function.update st.place thread .entering)).card
      rw [waiting_update (by simp [outside]) (by simp), regular.counts]
    · intro other
      by_cases same : other = thread
      · subst same
        simpa [further] using (outside ▸ regular.fits other).call
      · simpa [further, same] using regular.fits other
  | @wait thread entering more =>
    refine ⟨regular.threads, ?_, more, ?_⟩
    · show st.barrier.count + 1 = (waiting (Function.update st.place thread .parked)).card
      rw [waiting_park, regular.count_succ entering]
    · intro other
      by_cases same : other = thread
      · subst same
        simpa [further] using (entering ▸ regular.fits other).wait
      · simpa [further, same] using regular.fits other
  | @release thread entering last =>
    refine ⟨regular.threads, ?_, ?_, ?_⟩
    · show 0 = (waiting (Function.update _ thread .outside)).card
      rw [waiting_broadcast, Finset.card_empty]
    · exact (Nat.zero_le _).trans_lt regular.room
    · intro other
      by_cases same : other = thread
      · subst same
        simpa [further] using (entering ▸ regular.fits other).release
      · -- The others all wait, and the broadcast wakes them.
        have parked := regular.others_wait entering last same
        simpa [further, same, parked, Place.broadcast] using (parked ▸ regular.fits other).broadcast
  | @wake thread woken =>
    refine ⟨regular.threads, ?_, regular.room, ?_⟩
    · show st.barrier.count = (waiting (Function.update st.place thread .outside)).card
      rw [waiting_update (by simp [woken]) (by simp), regular.counts]
    · intro other
      by_cases same : other = thread
      · subst same
        simpa [State.leave, further] using (woken ▸ regular.fits other).wake
      · simpa [State.leave, further, same] using regular.fits other
  | spurious => exact absurd rfl meets

/-- A thread whose wait ends spuriously gets ahead of one that has not come. -/
theorem Regular.spurious (regular : Regular st) (step : Step st action after)
    (unmet : action.event = .spurious) : ¬ InStep after := by
  cases step with
  | @spurious thread parked =>
    obtain ⟨behind, late⟩ := regular.exists_behind
    intro inStep
    have together : st.returned thread + 1 ≤ st.entered behind := by
      simpa [State.leave, further] using inStep.together thread behind
    -- The thread was counted in for the round that is not complete.
    have fits := parked ▸ regular.fits thread
    have ahead : st.entered thread = st.barrier.timesUsed + 1 := fits.entry
    have inside : st.entered thread = st.returned thread + 1 := fits.exit
    omega
  | call | wait | release | wake => cases unmet

variable {trace : List (Transition (State Thread) (Action Thread))}

/-- In a run in which no wait ends spuriously, everything is regular. -/
theorem regular_of_run [Nonempty Thread]
    (run : Run Step (start (Fintype.card Thread)) trace final)
    (meets : ∀ taken ∈ trace, taken.action.event ≠ .spurious) : Regular final := by
  induction run with
  | start => exact .init
  | @next trace before after action _ step ih =>
    have past := ih fun taken member => meets taken (List.mem_append_left _ member)
    exact past.step step (meets ⟨before, action, after⟩ (by simp))

/--
A run keeps the threads together, and `times_used` the number of completed rounds, exactly if no
`pthread_cond_wait` in it returns before a broadcast; then no thread has returned from more calls
than each thread has begun, either.
-/
theorem inStep_iff_no_spurious [Nonempty Thread]
    (run : Run Step (start (Fintype.card Thread)) trace final) :
    ((∀ taken ∈ trace, InStep taken.after) ↔ ∀ taken ∈ trace, taken.action.event ≠ .spurious) ∧
    ((∀ taken ∈ trace, taken.action.event ≠ .spurious) →
      ∀ thread other, final.returned thread ≤ final.called other) := by
  constructor
  · apply run.all_good_iff_of_kept Regular (fun taken => InStep taken.after)
      (fun taken => taken.action.event ≠ .spurious) .init
    · intro before action after regular step meets
      exact regular.step step meets
    · intro before action after regular step
      constructor
      · intro inStep unmet
        exact regular.spurious step unmet inStep
      · intro meets
        exact (regular.step step meets).inStep
  · intro meets thread other
    have regular := regular_of_run run meets
    -- A call that is counted has begun.
    have begun := (regular.fits other).begun
    have entered := (regular.fits other).le_entered
    have returned := (regular.fits thread).returned_le
    split at begun <;> omega

/-- A single thread passes the barrier at once, and its round is completed. -/
theorem inStep_single : ∃ final : State Unit, final.returned () = 1 ∧ InStep final := by
  let called : State Unit :=
    { start 1 with
      place := Function.update (fun _ => .outside) () .entering
      called := further (fun _ => 0) () }
  let passed : State Unit :=
    { called with
      barrier := { called.barrier with count := 0, timesUsed := 1 }
      place := Function.update (fun other => (called.place other).broadcast) () .outside
      entered := further (fun _ => 0) ()
      returned := further (fun _ => 0) () }
  have call : Step (start (Fintype.card Unit)) ⟨(), .call⟩ called := .call rfl
  have release : Step called ⟨(), .release⟩ passed := .release rfl (by decide)
  have run := (Run.start.next call).next release
  have quiet := (inStep_iff_no_spurious run).1.mpr (by simp)
  exact ⟨passed, rfl, quiet ⟨called, ⟨(), .release⟩, passed⟩ (by simp)⟩

/-- Of two threads, one calls, waits, and gets back from its wait with no broadcast. -/
theorem early_return : ∃ trace final,
    Run Step (start (Fintype.card Bool) : State Bool) trace final ∧ ¬ InStep final ∧
    final.returned true = 1 ∧ final.called false = 0 := by
  let called : State Bool :=
    { start 2 with
      place := Function.update (fun _ => .outside) true .entering
      called := further (fun _ => 0) true }
  let parked : State Bool :=
    { called with
      barrier := { called.barrier with count := 1 }
      place := Function.update called.place true .parked
      entered := further (fun _ => 0) true }
  have call : Step (start 2) ⟨true, .call⟩ called := .call rfl
  have wait : Step called ⟨true, .wait⟩ parked := .wait rfl (by decide)
  have spurious : Step parked ⟨true, .spurious⟩ (parked.leave true) := .spurious rfl
  refine ⟨_, _, ((Run.start.next call).next wait).next spurious, ?_, rfl, rfl⟩
  intro inStep
  -- The other thread has not come.
  have together : 1 ≤ 0 := inStep.together true false
  omega

end Rounds

end SystemProgramming.Barriers
