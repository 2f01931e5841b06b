import SystemProgramming.Foundations.Reduction
import SystemProgramming.Foundations.Runs
import Mathlib.Algebra.Order.Group.Unbundled.Int
import Mathlib.Data.Finset.Card
import Mathlib.Data.Finset.Range
import Mathlib.Logic.Function.Basic

/-! Reducing a list by threads, each of which reduces a copy of its part. -/

namespace SystemProgramming.TeachingThreads

open Foundations

/-- A `reducer`. -/
abbrev Reducer := Int32 → Int32 → Int32

/-- The external `reduce`, from left to right. -/
def reduce (list : List Int32) (length : Nat) (reduceFunc : Reducer) (baseCase : Int32) : Int32 :=
  (list.take length).foldl reduceFunc baseCase

/-- What is left in a `size_t` of a number. -/
def sizeT (number : Int) : Nat := (number % 2 ^ 64).toNat

/-- What is left in an `int` of a number. -/
def toInt (number : Nat) : Int := (number : Int).bmod (2 ^ 32)

/-- The task of a thread; its list is `NULL` after it is freed. -/
structure GetThread where
  nameReduce : Reducer
  length : Nat
  list : Option (List Int32)
  result : Int32
  baseCase : Int32

/-- The arguments of `par_reduce`; the list may be `NULL`. -/
structure Call where
  list : Option (List Int32)
  listLen : Nat
  reduceFunc : Reducer
  baseCase : Int32
  numThreads : Nat

namespace Call

/-- The number of threads that are used. -/
def threads (call : Call) : Nat :=
  if call.listLen < call.numThreads then call.listLen else call.numThreads

/-- `num_each_list`, an `int`. -/
def numEachList (call : Call) : Int := toInt (call.listLen / call.threads)

/-- Where the part of a thread starts. -/
def offset (call : Call) (i : Nat) : Nat := sizeT (call.numEachList * i)

/-- The length of the part of a thread; the last one takes what is left. -/
def length (call : Call) (i : Nat) : Nat :=
  if i = call.threads - 1 then
    sizeT (call.listLen - sizeT (call.numEachList * (call.threads - 1 : Nat)))
  else sizeT call.numEachList

end Call

/-- `memcpy` of a part of the list; undefined where the part is not in the list. -/
def copyPart (list : List Int32) (offset length : Nat) : Option (List Int32) :=
  if offset + length ≤ list.length then some (slice list offset length) else none

/-- Where the caller of `par_reduce` is. -/
inductive Place where
  /-- In the first loop. -/
  | creating (i : Nat)
  /-- In the second loop, with what the first threads are reduced to. -/
  | joining (j : Nat) (ret : Int32)
  | returned (ret : Int32)
  deriving DecidableEq, Repr

/-- A thread is not yet created, or it runs, or it has ended. -/
inductive Status where
  | absent
  | running
  | finished
  deriving DecidableEq, Repr

/-- The caller, the tasks and the threads. A task is undefined before it is filled in. -/
structure State where
  place : Place
  threatList : Nat → Option GetThread
  threads : Nat → Status

/-- One step of the caller, or of a thread. -/
inductive Action where
  | caller
  | thread (i : Nat)
  deriving DecidableEq, Repr

/--
The start of `par_reduce`; undefined where it divides by zero. The memory for the tasks is there,
and so is that for the copies.
-/
def parReduce (call : Call) : Option State :=
  match call.list with
  | none => some ⟨.returned 0, fun _ => none, fun _ => .absent⟩
  | some _ =>
    if call.threads = 0 then none
    else some ⟨.creating 0, fun _ => none, fun _ => .absent⟩

/-- `start_routine`: what a thread leaves of its task; undefined without a list. -/
def startRoutine (this : GetThread) : Option GetThread :=
  this.list.map fun list =>
    { this with result := reduce list this.length this.nameReduce this.baseCase }

/-- The task of a thread, with a copy of its part. -/
def task (call : Call) (list : List Int32) (i : Nat) : Option GetThread :=
  (copyPart list (call.offset i) (call.length i)).map fun part =>
    { nameReduce := call.reduceFunc
      length := call.length i
      list := some part
      result := call.baseCase
      baseCase := call.baseCase }

/--
What happens next in `par_reduce` and its threads; undefined too is a step that has to wait.
`pthread_create` does not fail.
-/
def turn (call : Call) : Action → State → Option State
  | .caller, st =>
    match st.place with
    | .creating i =>
      if i < call.threads then
        (call.list.bind fun list => task call list i).map fun this =>
          { place := .creating (i + 1)
            threatList := Function.update st.threatList i (some this)
            threads := Function.update st.threads i .running }
      else some { st with place := .joining 0 call.baseCase }
    | .joining j ret =>
      if j < call.threads then
        -- `pthread_join` waits for the thread, and then its result is combined.
        if st.threads j = .finished then
          (st.threatList j).map fun this =>
            { st with
              place := .joining (j + 1) (call.reduceFunc ret this.result)
              threatList := Function.update st.threatList j (some { this with list := none }) }
        else none
      else some { st with place := .returned ret }
    | .returned _ => none
  | .thread i, st =>
    if st.threads i = .running then
      ((st.threatList i).bind startRoutine).map fun this =>
        { st with
          threatList := Function.update st.threatList i (some this)
          threads := Function.update st.threads i .finished }
    else none

def Step (call : Call) (st : State) (action : Action) (st' : State) : Prop :=
  turn call action st = some st'

section Parts

variable {call : Call} {i number : Nat}

/-- A number that is small enough stays what it is. -/
theorem toInt_of_lt (small : number < 2 ^ 31) : toInt number = number := by
  have lower : (-(2 ^ 31) : Int) ≤ number := by omega
  have upper : (number : Int) < 2 ^ 31 := by omega
  exact Int.bmod_eq_of_le lower upper

theorem sizeT_of_lt (small : number < 2 ^ 64) : sizeT number = number := by
  rw [sizeT]
  omega

/-- The parts that come before that of a thread do not have more values than there are. -/
theorem product_le {threads : Nat} (below : i ≤ threads) : number / threads * i ≤ number :=
  (Nat.mul_le_mul_left _ below).trans (Nat.div_mul_le_self _ _)

/-- The lists that the threads can be given; an `int` holds their lengths. -/
structure Call.Proper (call : Call) (list : List Int32) : Prop where
  given : call.list = some list
  listLen : call.listLen = list.length
  nonempty : 1 ≤ list.length
  short : list.length < 2 ^ 31
  someThread : 1 ≤ call.numThreads

namespace Call.Proper

variable {list : List Int32}

/-- There is a thread, and each of them has a value. -/
theorem threads_le (proper : call.Proper list) :
    1 ≤ call.threads ∧ call.threads ≤ list.length := by
  obtain ⟨_, same, nonempty, _, someThread⟩ := proper
  rw [Call.threads, same]
  split <;> omega

/-- No quotient is too large for an `int`. -/
theorem numEachList_eq (proper : call.Proper list) :
    call.numEachList = ((list.length / call.threads : Nat) : Int) := by
  rw [Call.numEachList, proper.listLen]
  exact toInt_of_lt (Nat.lt_of_le_of_lt (Nat.div_le_self _ _) proper.short)

/-- Nothing of an offset is lost. -/
theorem offset_eq (proper : call.Proper list) (below : i ≤ call.threads) :
    call.offset i = list.length / call.threads * i := by
  have bound : list.length / call.threads * i ≤ list.length := product_le below
  have short := proper.short
  rw [Call.offset, proper.numEachList_eq, ← Int.natCast_mul, sizeT_of_lt (by omega)]

/-- The part of a thread ends where the next one starts, and the last part ends with the list. -/
theorem length_eq (proper : call.Proper list) (below : i < call.threads) :
    call.offset i + call.length i =
      if i + 1 = call.threads then list.length else call.offset (i + 1) := by
  have bound : list.length / call.threads * i ≤ list.length := product_le (Nat.le_of_lt below)
  have quotient := Nat.div_le_self list.length call.threads
  have short := proper.short
  rw [Call.length, proper.offset_eq (Nat.le_of_lt below)]
  by_cases last : i = call.threads - 1
  · -- The rest is taken from the place where the last part starts.
    have whole : sizeT (call.numEachList * (call.threads - 1 : Nat)) =
        list.length / call.threads * i := by
      rw [← last]
      exact proper.offset_eq (Nat.le_of_lt below)
    rw [if_pos last, if_pos (by omega), whole, proper.listLen, ← Int.natCast_sub bound,
      sizeT_of_lt (by omega), Nat.add_sub_of_le bound]
  · rw [if_neg last, if_neg (by omega), proper.offset_eq (Nat.succ_le_of_lt below),
      proper.numEachList_eq, sizeT_of_lt (by omega), Nat.mul_succ]

/-- Every part lies in the list. -/
theorem inside (proper : call.Proper list) (below : i < call.threads) :
    call.offset i + call.length i ≤ list.length := by
  have ends := proper.length_eq below
  split at ends
  · exact Nat.le_of_eq ends
  · rw [ends, proper.offset_eq (Nat.succ_le_of_lt below)]
    exact product_le (Nat.succ_le_of_lt below)

end Call.Proper

/-- The part of a thread. -/
def Call.part (call : Call) (list : List Int32) (i : Nat) : List Int32 :=
  slice list (call.offset i) (call.length i)

/-- What a thread reduces its part to. -/
def Call.result (call : Call) (list : List Int32) (i : Nat) : Int32 :=
  (call.part list i).foldl call.reduceFunc call.baseCase

/-- What the first threads reduce their parts to, combined. -/
def Call.combined (call : Call) (list : List Int32) (count : Nat) : Int32 :=
  ((List.range count).map (call.result list)).foldl call.reduceFunc call.baseCase

variable {list : List Int32}

/-- Each part starts where the one before it ends, the first with the list, and the last ends with it. -/
theorem Call.Proper.consecutive (proper : call.Proper list) :
    call.offset 0 = 0 ∧
      (∀ i, i + 1 < call.threads → call.offset (i + 1) = call.offset i + call.length i) ∧
      call.offset (call.threads - 1) + call.length (call.threads - 1) = list.length := by
  have some := proper.threads_le.1
  refine ⟨?_, fun i below => ?_, ?_⟩
  · rw [proper.offset_eq (Nat.zero_le _), Nat.mul_zero]
  · rw [proper.length_eq (by omega), if_neg (by omega)]
  · rw [proper.length_eq (by omega), if_pos (by omega)]

/-- The parts are together the list. -/
theorem Call.Proper.flatten_parts (proper : call.Proper list) :
    ((List.range call.threads).map (call.part list)).flatten = list := by
  have some := proper.threads_le.1
  -- The parts are the slices between consecutive places, the last of which is the end of the list.
  let place (i : Nat) : Nat := if i = call.threads then list.length else call.offset i
  have start : place 0 = 0 := by
    rw [show place 0 = call.offset 0 from if_neg (by omega)]
    exact proper.consecutive.1
  have next (i : Nat) (below : i < call.threads) : place (i + 1) = place i + call.length i := by
    rw [show place i = call.offset i from if_neg (by omega)]
    exact (proper.length_eq below).symm
  have grows (i : Nat) (below : i < call.threads) : place i ≤ place (i + 1) := by
    rw [next i below]
    exact Nat.le_add_right _ _
  have same : (List.range call.threads).map (call.part list) =
      (List.range call.threads).map fun i => slice list (place i) (place (i + 1) - place i) := by
    apply List.map_congr_left
    intro i member
    have below := List.mem_range.mp member
    rw [next i below, Nat.add_sub_cancel_left, show place i = call.offset i from if_neg (by omega),
      Call.part]
  rw [same, flatten_slices start grows, show place call.threads = list.length from if_pos rfl,
    List.take_length]

/-- What all threads reduce their parts to is, combined, what the list is reduced to. -/
theorem Call.Proper.combined_eq [Std.Associative call.reduceFunc]
    [Std.LawfulIdentity call.reduceFunc call.baseCase] (proper : call.Proper list) :
    call.combined list call.threads = reduce list call.listLen call.reduceFunc call.baseCase := by
  have pieces := @foldl_pieces _ call.reduceFunc call.baseCase _ _
    ((List.range call.threads).map (call.part list))
  rw [proper.flatten_parts, List.map_map] at pieces
  have whole : reduce list call.listLen call.reduceFunc call.baseCase =
      list.foldl call.reduceFunc call.baseCase := by
    rw [reduce, proper.listLen, List.take_length]
  rw [whole, ← pieces, Call.combined]
  rfl

/-- The task of a thread has its part, and is done with its result. -/
theorem Call.Proper.task_eq (proper : call.Proper list) (below : i < call.threads) :
    ∃ this, task call list i = some this ∧ this.length = call.length i ∧
      this.list = some (call.part list i) ∧
      ∃ done, startRoutine this = some done ∧ done.result = call.result list i := by
  have copied : copyPart list (call.offset i) (call.length i) = some (call.part list i) :=
    if_pos (proper.inside below)
  refine ⟨_, by rw [task, copied, Option.map_some], rfl, rfl, _, rfl, ?_⟩
  -- The copy is as long as the task says.
  have whole : (call.part list i).take (call.length i) = call.part list i := by
    rw [Call.part, slice, List.take_take, Nat.min_self]
  show ((call.part list i).take (call.length i)).foldl call.reduceFunc call.baseCase = _
  rw [whole, Call.result]

end Parts

section Threads

variable {call : Call} {list : List Int32} {st st' : State} {action : Action} {i : Nat}
  {trace : List (Transition State Action)}

/-- What is known where the caller is. -/
def Placed (call : Call) (list : List Int32) (threads : Nat → Status) : Place → Prop
  | .creating i => i ≤ call.threads ∧ ∀ k, threads k ≠ .absent ↔ k < i
  | .joining j ret =>
    j ≤ call.threads ∧ (∀ k, threads k ≠ .absent ↔ k < call.threads) ∧
      ret = call.combined list j
  | .returned ret =>
    (∀ k, threads k ≠ .absent ↔ k < call.threads) ∧ ret = call.combined list call.threads

/-- A running thread has its task, and what a thread leaves that has ended is its result. -/
structure Sound (call : Call) (list : List Int32) (st : State) : Prop where
  placed : Placed call list st.threads st.place
  running : ∀ k, st.threads k = .running → st.threatList k = task call list k
  finished : ∀ k, st.threads k = .finished →
    ∃ this, st.threatList k = some this ∧ this.result = call.result list k

/-- The threads that have not ended. -/
def unfinished (call : Call) (st : State) : Finset Nat :=
  (Finset.range call.threads).filter fun k => st.threads k ≠ .finished

/-- The steps that the caller has before it. -/
def Place.left (call : Call) : Place → Nat
  | .creating i => call.threads - i + call.threads + 2
  | .joining j _ => call.threads - j + 1
  | .returned _ => 0

/-- The steps that are left. -/
def State.left (call : Call) (st : State) : Nat := st.place.left call + (unfinished call st).card

/-- A thread that exists is one of those that are used. -/
theorem Sound.below (sound : Sound call list st) (present : st.threads i ≠ .absent) :
    i < call.threads := by
  have placed := sound.placed
  cases place : st.place with
  | creating next =>
    rw [place] at placed
    exact Nat.lt_of_lt_of_le ((placed.2 i).mp present) placed.1
  | joining j ret =>
    rw [place] at placed
    exact (placed.2.1 i).mp present
  | returned ret =>
    rw [place] at placed
    exact (placed.1 i).mp present

/-- What holds before and after a step: the next state is sound too, and one step less is left. -/
def Advances (call : Call) (list : List Int32) (st st' : State) : Prop :=
  Sound call list st' ∧ st'.left call + 1 = st.left call

/-- The caller creates the next thread. -/
theorem Sound.create {this : GetThread} (sound : Sound call list st)
    (here : st.place = .creating i) (below : i < call.threads)
    (filled : task call list i = some this) :
    Advances call list st
      { place := .creating (i + 1)
        threatList := Function.update st.threatList i (some this)
        threads := Function.update st.threads i .running } := by
  have placed := sound.placed
  rw [here] at placed
  obtain ⟨_, created⟩ := placed
  have absent : st.threads i = .absent :=
    Classical.not_not.mp fun present => Nat.lt_irrefl i ((created i).mp present)
  refine ⟨⟨⟨below, fun k => ?_⟩, fun k runs => ?_, fun k ended => ?_⟩, ?_⟩
  · by_cases same : k = i
    · subst same
      simp
    · simp only [Function.update_of_ne same]
      rw [created k]
      omega
  · by_cases same : k = i
    · subst same
      simp [filled]
    · simp only [Function.update_of_ne same] at runs ⊢
      exact sound.running k runs
  · by_cases same : k = i
    · subst same
      simp at ended
    · simp only [Function.update_of_ne same] at ended ⊢
      exact sound.finished k ended
  · -- The new thread has not ended, as it had not before.
    have same : unfinished call { st with threads := Function.update st.threads i .running } =
        unfinished call st := by
      apply Finset.filter_congr
      intro k _
      by_cases same : k = i
      · subst same
        simp [absent]
      · simp [Function.update_of_ne same]
    show call.threads - (i + 1) + call.threads + 2 +
      (unfinished call { st with threads := Function.update st.threads i .running }).card + 1 = _
    rw [same, State.left, here, Place.left]
    omega

/-- All threads are created, and the caller begins to wait for them. -/
theorem Sound.beginJoining (sound : Sound call list st) (here : st.place = .creating i)
    (last : ¬ i < call.threads) :
    Advances call list st { st with place := .joining 0 call.baseCase } := by
  have placed := sound.placed
  rw [here] at placed
  obtain ⟨bound, created⟩ := placed
  obtain rfl : i = call.threads := by omega
  refine ⟨⟨⟨Nat.zero_le _, created, rfl⟩, sound.running, sound.finished⟩, ?_⟩
  show call.threads - 0 + 1 + (unfinished call st).card + 1 = _
  rw [State.left, here, Place.left]
  omega

/-- A thread that has ended is joined. -/
theorem Sound.join {ret : Int32} {this : GetThread} (sound : Sound call list st)
    (here : st.place = .joining i ret) (below : i < call.threads)
    (ended : st.threads i = .finished) (stored : st.threatList i = some this) :
    Advances call list st
      { st with
        place := .joining (i + 1) (call.reduceFunc ret this.result)
        threatList := Function.update st.threatList i (some { this with list := none }) } := by
  have placed := sound.placed
  rw [here] at placed
  obtain ⟨_, created, combined⟩ := placed
  -- The task that is found is the one that the thread has left.
  obtain ⟨left, found, result⟩ := sound.finished i ended
  rw [stored] at found
  obtain rfl := Option.some.inj found
  refine ⟨⟨⟨below, created, ?_⟩, fun k runs => ?_, fun k ended => ?_⟩, ?_⟩
  · rw [result, combined, Call.combined, Call.combined, List.range_succ, List.map_append,
      List.foldl_append]
    rfl
  · by_cases same : k = i
    · subst same
      rw [show st.threads k = .running from runs] at ended
      cases ended
    · simp only [Function.update_of_ne same]
      exact sound.running k runs
  · by_cases same : k = i
    · subst same
      simpa using result
    · simp only [Function.update_of_ne same]
      exact sound.finished k ended
  · show call.threads - (i + 1) + 1 + (unfinished call st).card + 1 = _
    rw [State.left, here, Place.left]
    omega

/-- All threads are joined. -/
theorem Sound.finish {ret : Int32} (sound : Sound call list st) (here : st.place = .joining i ret)
    (last : ¬ i < call.threads) : Advances call list st { st with place := .returned ret } := by
  have placed := sound.placed
  rw [here] at placed
  obtain ⟨bound, created, combined⟩ := placed
  obtain rfl : i = call.threads := by omega
  refine ⟨⟨⟨created, combined⟩, sound.running, sound.finished⟩, ?_⟩
  show 0 + (unfinished call st).card + 1 = _
  rw [State.left, here, Place.left]
  omega

/-- A thread ends. -/
theorem Sound.exit {done : GetThread} (sound : Sound call list st)
    (running : st.threads i = .running) (result : done.result = call.result list i) :
    Advances call list st
      { st with
        threatList := Function.update st.threatList i (some done)
        threads := Function.update st.threads i .finished } := by
  have present : st.threads i ≠ .absent := by
    rw [running]
    exact Status.noConfusion
  have others (k : Nat) : Function.update st.threads i .finished k ≠ .absent ↔
      st.threads k ≠ .absent := by
    by_cases same : k = i
    · subst same
      simp [present]
    · rw [Function.update_of_ne same]
  refine ⟨⟨?_, fun k runs => ?_, fun k ended => ?_⟩, ?_⟩
  · -- The caller does not see when a thread ends, but only that there is one.
    have placed := sound.placed
    cases here : st.place with
    | creating next =>
      rw [here] at placed
      exact ⟨placed.1, fun k => (others k).trans (placed.2 k)⟩
    | joining j ret =>
      rw [here] at placed
      exact ⟨placed.1, fun k => (others k).trans (placed.2.1 k), placed.2.2⟩
    | returned ret =>
      rw [here] at placed
      exact ⟨fun k => (others k).trans (placed.1 k), placed.2⟩
  · by_cases same : k = i
    · subst same
      simp at runs
    · simp only [Function.update_of_ne same] at runs ⊢
      exact sound.running k runs
  · by_cases same : k = i
    · subst same
      exact ⟨done, by simp, result⟩
    · simp only [Function.update_of_ne same] at ended ⊢
      exact sound.finished k ended
  · -- One thread less has not ended.
    have fewer : unfinished call { st with threads := Function.update st.threads i .finished } =
        (unfinished call st).erase i := by
      ext k
      by_cases same : k = i
      · subst same
        simp [unfinished]
      · simp [unfinished, same]
    have member : i ∈ unfinished call st := by
      simp [unfinished, running, sound.below present]
    have one := Finset.card_erase_add_one member
    show st.place.left call +
      (unfinished call { st with threads := Function.update st.threads i .finished }).card + 1 = _
    rw [fewer, State.left]
    omega

/-- Every step keeps what is known, and one step less is left. -/
theorem Sound.step (proper : call.Proper list) (sound : Sound call list st)
    (stepped : Step call st action st') : Advances call list st st' := by
  cases action with
  -- The caller creates the threads one by one, then joins them one by one, and then it returns.
  | caller =>
    simp only [Step, turn] at stepped
    split at stepped
    · rename_i i here
      split at stepped
      · rename_i below
        obtain ⟨this, filled, rfl⟩ := Option.map_eq_some_iff.mp stepped
        rw [proper.given, Option.bind_some] at filled
        exact sound.create here below filled
      · rename_i last
        obtain rfl := Option.some.inj stepped
        exact sound.beginJoining here last
    · rename_i j ret here
      split at stepped
      · rename_i below
        split at stepped
        · rename_i ended
          obtain ⟨this, stored, rfl⟩ := Option.map_eq_some_iff.mp stepped
          exact sound.join here below ended stored
        · cases stepped
      · rename_i last
        obtain rfl := Option.some.inj stepped
        exact sound.finish here last
    · cases stepped
  | thread i =>
    simp only [Step, turn] at stepped
    split at stepped
    · rename_i running
      have present : st.threads i ≠ .absent := by
        rw [running]
        exact Status.noConfusion
      -- A thread that runs has its part of the list, and ends with the reduction of it.
      obtain ⟨done, left, rfl⟩ := Option.map_eq_some_iff.mp stepped
      obtain ⟨this, filled, _, _, done', left', result⟩ := proper.task_eq (sound.below present)
      rw [sound.running i running, filled, Option.bind_some] at left
      rw [left] at left'
      obtain rfl := Option.some.inj left'
      exact sound.exit running result
    · cases stepped

/-- The caller goes on, or it has returned, or it waits for a thread that runs. -/
theorem Sound.caller_goes (proper : call.Proper list) (sound : Sound call list st) :
    (∃ st', Step call st .caller st') ∨ (∃ ret, st.place = .returned ret) ∨
      ∃ j, j < call.threads ∧ st.threads j = .running := by
  have placed := sound.placed
  cases here : st.place with
  | creating i =>
    left
    apply Option.isSome_iff_exists.mp
    simp only [turn, here]
    by_cases below : i < call.threads
    · obtain ⟨this, filled, _⟩ := proper.task_eq below
      rw [if_pos below, proper.given, Option.bind_some, filled, Option.map_some, Option.isSome_some]
    · rw [if_neg below, Option.isSome_some]
  | joining j ret =>
    rw [here] at placed
    by_cases below : j < call.threads
    · -- The thread that is waited for exists, so that it runs or has ended.
      have present := (placed.2.1 j).mpr below
      cases status : st.threads j with
      | absent => exact absurd status present
      | running => exact .inr (.inr ⟨j, below, status⟩)
      | finished =>
        left
        obtain ⟨this, stored, _⟩ := sound.finished j status
        apply Option.isSome_iff_exists.mp
        simp only [turn, here]
        rw [if_pos below, if_pos status, stored, Option.map_some, Option.isSome_some]
    · left
      apply Option.isSome_iff_exists.mp
      simp only [turn, here]
      rw [if_neg below, Option.isSome_some]
  | returned ret => exact .inr (.inl ⟨ret, rfl⟩)

/-- Someone can go on, until the caller returns. -/
theorem Sound.progress (proper : call.Proper list) (sound : Sound call list st) :
    (∃ action st', Step call st action st') ∨ ∃ ret, st.place = .returned ret := by
  rcases sound.caller_goes proper with ⟨st', stepped⟩ | returned | ⟨j, below, running⟩
  · exact .inl ⟨.caller, st', stepped⟩
  · exact .inr returned
  · -- A thread that runs has its task.
    left
    obtain ⟨this, filled, _, _, done, left, _⟩ := proper.task_eq below
    refine ⟨.thread j, Option.isSome_iff_exists.mp ?_⟩
    rw [turn, if_pos running, sound.running j running, filled, Option.bind_some, left,
      Option.map_some, Option.isSome_some]

/-- At the start nothing is created, and every step is left. -/
theorem Sound.start : Sound call list ⟨.creating 0, fun _ => none, fun _ => .absent⟩ ∧
    State.left call ⟨.creating 0, fun _ => none, fun _ => .absent⟩ = 3 * call.threads + 2 := by
  refine ⟨⟨⟨Nat.zero_le _, fun k => by simp⟩, fun k runs => ?_, fun k ended => ?_⟩, ?_⟩
  · cases runs
  · cases ended
  · have all : unfinished call ⟨.creating 0, fun _ => none, fun _ => .absent⟩ =
        Finset.range call.threads := by
      simp [unfinished]
    rw [State.left, all, Finset.card_range, Place.left]
    omega

/--
Whatever the order in which the threads end, `par_reduce` goes on until it returns what `reduce`
returns of the whole list; and the parts that the threads are given follow one another, from the
start of the list to its end.
-/
theorem par_reduce_eq_reduce [Std.Associative call.reduceFunc]
    [Std.LawfulIdentity call.reduceFunc call.baseCase] (proper : call.Proper list) :
    ∃ origin, parReduce call = some origin ∧
      (∀ trace final, Run (Step call) origin trace final →
        trace.length ≤ 3 * call.threads + 2 ∧
        ((∃ action after, Step call final action after) ∨ ∃ ret, final.place = .returned ret) ∧
        (∀ ret, final.place = .returned ret →
          ret = reduce list call.listLen call.reduceFunc call.baseCase) ∧
        ∀ i, final.threads i = .running →
          ∃ this, final.threatList i = some this ∧ this.length = call.length i ∧
            this.list = some (slice list (call.offset i) (call.length i))) ∧
      call.offset 0 = 0 ∧
      (∀ i, i + 1 < call.threads → call.offset (i + 1) = call.offset i + call.length i) ∧
      call.offset (call.threads - 1) + call.length (call.threads - 1) = list.length := by
  have some := proper.threads_le.1
  refine ⟨⟨.creating 0, fun _ => none, fun _ => .absent⟩, ?_, ?_, proper.consecutive⟩
  · simp only [parReduce, proper.given]
    rw [if_neg (by omega)]
  intro trace final run
  obtain ⟨initial, all⟩ := @Sound.start call list
  -- Every step takes one from what is left.
  obtain ⟨sound, spent⟩ : Sound call list final ∧
      final.left call + trace.length = 3 * call.threads + 2 := by
    refine @Run.history _ _ _ _ _ _ (fun trace st => Sound call list st ∧
      st.left call + trace.length = 3 * call.threads + 2) run ⟨initial, all⟩ ?_
    · intro trace before action after known stepped
      obtain ⟨sound, less⟩ := known.1.step proper stepped
      refine ⟨sound, ?_⟩
      rw [List.length_append, List.length_singleton, ← known.2]
      omega
  refine ⟨by omega, sound.progress proper, fun ret returned => ?_, fun i running => ?_⟩
  · have placed := sound.placed
    rw [returned] at placed
    rw [placed.2, proper.combined_eq]
  · have present : final.threads i ≠ .absent := by
      rw [running]
      exact Status.noConfusion
    obtain ⟨this, filled, length, part, _⟩ := proper.task_eq (sound.below present)
    exact ⟨this, (sound.running i running).trans filled, length, part⟩

/-- The sum of three numbers, by two threads. -/
def sampleCall : Call := ⟨some [3, 1, 2], 3, (· + ·), 0, 2⟩

/-- Whenever this call returns, it returns 6. -/
theorem par_reduce_sample : ∃ origin, parReduce sampleCall = some origin ∧
    ∀ trace final, Run (Step sampleCall) origin trace final →
      ∀ ret, final.place = .returned ret → ret = 6 := by
  have proper : sampleCall.Proper [3, 1, 2] :=
    ⟨rfl, rfl, by decide, by decide, by decide⟩
  have associative : Std.Associative sampleCall.reduceFunc :=
    inferInstanceAs (Std.Associative (fun a b : Int32 => a + b))
  have neutral : Std.LawfulIdentity sampleCall.reduceFunc sampleCall.baseCase :=
    inferInstanceAs (Std.LawfulIdentity (fun a b : Int32 => a + b) 0)
  obtain ⟨origin, starts, runs, _⟩ := par_reduce_eq_reduce proper
  refine ⟨origin, starts, fun trace final run ret returned => ?_⟩
  rw [(runs trace final run).2.2.1 ret returned]
  decide

end Threads

end SystemProgramming.TeachingThreads
