import SystemProgramming.BlockingQueue.Queue

/-! The queue hands out what was put in, in the same order, and never grows over its maximum. -/

namespace SystemProgramming.BlockingQueue

open Foundations

variable {Data Thread : Type*} {queue after : Queue Data} {cells : List (Nat × Node Data)}
  {data : Data}

/-- The data in a list of nodes. -/
def contents (cells : List (Nat × Node Data)) : List Data := cells.map fun cell => cell.2.data

/-- The address of the last node, or `NULL`. -/
def lastCell (cells : List (Nat × Node Data)) : Nat := (cells.map Prod.fst).getLastD 0

/--
The list from the head meets the given nodes, as many as the size says, and the tail points to the
last one; `NULL` is no node.
-/
structure Sound (queue : Queue Data) (cells : List (Nat × Node Data)) : Prop where
  chain : Chain Node.next queue.nodes 0 queue.head cells
  null : queue.nodes 0 = none
  tail : queue.tail = lastCell cells
  size : queue.size = cells.length
  bounded : 0 < queue.maxSize → queue.size ≤ queue.maxSize

@[simp] theorem lastCell_append (cells : List (Nat × Node Data)) (cell : Nat × Node Data) :
    lastCell (cells ++ [cell]) = cell.1 := by
  simp [lastCell]

@[simp] theorem contents_append (cells rest : List (Nat × Node Data)) :
    contents (cells ++ rest) = contents cells ++ contents rest := by
  simp [contents]

/-- A new queue holds nothing. -/
theorem Sound.create (maxSize : Int) : Sound (queueCreate maxSize : Queue Data) [] where
  chain := rfl
  null := rfl
  tail := rfl
  size := rfl
  bounded positive := Int.le_of_lt positive

/-- The head is `NULL` exactly when the queue is empty. -/
theorem Sound.head_eq_zero_iff (sound : Sound queue cells) : queue.head = 0 ↔ cells = [] :=
  (sound.chain.eq_nil_iff sound.null).symm

/-- So is the tail. -/
theorem Sound.tail_eq_zero_iff (sound : Sound queue cells) : queue.tail = 0 ↔ cells = [] := by
  rw [sound.tail]
  rcases List.eq_nil_or_concat cells with rfl | ⟨front, last, rfl⟩
  · exact ⟨fun _ => rfl, fun _ => rfl⟩
  · -- The last node is an allocated one, and `NULL` is not.
    rw [List.concat_eq_append] at sound ⊢
    rw [lastCell_append]
    refine ⟨fun null => ?_, fun empty => absurd empty (by simp)⟩
    have stored := sound.chain.stored List.mem_concat_self
    rw [null, sound.null] at stored
    cases stored

/-- A push of a queue that is not full appends the data, and is always defined. -/
theorem Sound.push (sound : Sound queue cells) (room : ¬ queue.Full) {newNode : Nat}
    (nonnull : newNode ≠ 0) (unused : queue.nodes newNode = none) (data : Data) :
    ∃ after cells', queue.push newNode data = some after ∧ Sound after cells' ∧
      contents cells' = contents cells ++ [data] := by
  -- A queue that is not full has room for one more, if it has a maximum.
  have grows : 0 < queue.maxSize → queue.size + 1 ≤ queue.maxSize := by
    intro positive
    rw [Queue.Full] at room
    omega
  by_cases empty : cells = []
  · -- The new node is head and tail at once.
    subst empty
    have tail : queue.tail = 0 := sound.tail
    refine ⟨_, [(newNode, ⟨data, 0⟩)], by simp only [Queue.push, tail]; rfl, ?_, rfl⟩
    refine ⟨⟨rfl, Function.update_self _ _ _, rfl⟩, ?_, rfl, ?_, grows⟩
    · exact (Function.update_of_ne (Ne.symm nonnull) _ _).trans sound.null
    · simp [sound.size]
  · -- The old last node now points to the new one.
    obtain ⟨front, ⟨cell, last⟩, rfl⟩ := (List.eq_nil_or_concat cells).resolve_left empty
    simp only [List.concat_eq_append] at sound empty ⊢
    have tail : queue.tail = cell := sound.tail.trans (lastCell_append _ _)
    have occupied : queue.tail ≠ 0 := fun zero => empty (sound.tail_eq_zero_iff.mp zero)
    have stored : queue.nodes cell = some last := sound.chain.stored (by simp)
    -- The last node is in use, and the new one is not.
    have apart : cell ≠ newNode := by
      intro same
      subst same
      rw [unused] at stored
      cases stored
    have found : Function.update queue.nodes newNode (some ⟨data, 0⟩) queue.tail = some last := by
      rw [tail, Function.update_of_ne apart, stored]
    refine ⟨_, front ++ [(cell, { last with next := newNode }), (newNode, ⟨data, 0⟩)],
      by simp only [Queue.push, if_pos occupied, found]; rfl, ⟨?_, ?_, ?_, ?_, grows⟩, ?_⟩
    · -- The old list with its last pointer changed leads to the new node.
      rw [tail]
      exact sound.chain.snoc sound.null unused rfl rfl
    · simp only [tail]
      rw [Function.update_of_ne (fun same => occupied (tail.trans same.symm)),
        Function.update_of_ne (Ne.symm nonnull), sound.null]
    · simp [lastCell]
    · simp [sound.size]
      omega
    · simp [contents]

/-- A pull of a queue that is not empty takes the first of the data, and is always defined. -/
theorem Sound.pull (sound : Sound queue cells) (occupied : ¬ queue.Empty) :
    ∃ data after rest, queue.pull = some (data, after) ∧ Sound after rest ∧
      contents cells = data :: contents rest := by
  cases cells with
  | nil => exact absurd sound.chain occupied
  | cons first rest =>
    obtain ⟨cell, node⟩ := first
    -- The head is the address of the first node.
    have found : queue.nodes queue.head = some node := sound.chain.2.1
    -- Without its first node, the list starts at the second one.
    have left := sound.chain.behead sound.null
    have null : Function.update queue.nodes queue.head none 0 = none := by
      rw [Function.update_of_ne (Ne.symm occupied), sound.null]
    have size : queue.size = rest.length + 1 := by simpa using sound.size
    have bounded : 0 < queue.maxSize → queue.size - 1 ≤ queue.maxSize := by
      intro positive
      have := sound.bounded positive
      omega
    -- The first node points to `NULL` exactly if it is the only one.
    have ends : node.next = 0 ↔ rest = [] := (left.eq_nil_iff null).symm
    by_cases last : node.next = 0
    · -- The only node goes away, and the tail with it.
      obtain rfl := ends.mp last
      refine ⟨node.data, _, [], by simp only [Queue.pull, found, if_pos last]; rfl, ?_, rfl⟩
      exact ⟨rfl, null, rfl, by simp [size], bounded⟩
    · -- The tail stays, since the last node is another one.
      refine ⟨node.data, _, rest, by simp only [Queue.pull, found, if_neg last]; rfl, ?_, rfl⟩
      refine ⟨left, null, ?_, by simp [size], bounded⟩
      obtain ⟨front, back, rfl⟩ := (List.eq_nil_or_concat rest).resolve_left (mt ends.mpr last)
      rw [List.concat_eq_append] at sound ⊢
      have tail := sound.tail
      rw [← List.cons_append, lastCell_append] at tail
      rw [lastCell_append]
      exact tail

/-- The data that an event puts into the queue. -/
def Event.pushed : Event Data → Option Data
  | .push _ data => some data
  | _ => none

/-- The data that an event takes out of the queue. -/
def Event.pulled : Event Data → Option Data
  | .pull data => some data
  | _ => none

/-- What was put into the queue, in the order in which the threads had the lock. -/
def pushed (trace : List (Transition (State Data Thread) (Action Data Thread))) : List Data :=
  trace.filterMap fun taken => taken.action.event.pushed

/-- What was taken out of the queue, in the order in which the threads had the lock. -/
def pulled (trace : List (Transition (State Data Thread) (Action Data Thread))) : List Data :=
  trace.filterMap fun taken => taken.action.event.pulled

variable {trace : List (Transition (State Data Thread) (Action Data Thread))}

/-- A step adds what it pushes to the history. -/
theorem pushed_step (taken : Transition (State Data Thread) (Action Data Thread)) :
    pushed (trace ++ [taken]) = pushed trace ++ taken.action.event.pushed.toList := by
  -- An event pushes one datum or none.
  rw [pushed, List.filterMap_append]
  cases made : taken.action.event.pushed <;> simp [pushed, made]

/-- A step adds what it pulls to the history. -/
theorem pulled_step (taken : Transition (State Data Thread) (Action Data Thread)) :
    pulled (trace ++ [taken]) = pulled trace ++ taken.action.event.pulled.toList := by
  -- An event pulls one datum or none.
  rw [pulled, List.filterMap_append]
  cases made : taken.action.event.pulled <;> simp [pulled, made]

/-- The queue is sound, and what is in it was put in and not yet taken out. -/
def Faithful (trace : List (Transition (State Data Thread) (Action Data Thread)))
    (st : State Data Thread) : Prop :=
  ∃ cells, Sound st.queue cells ∧ pulled trace ++ contents cells = pushed trace

variable [DecidableEq Thread] {st st' : State Data Thread} {action : Action Data Thread}
  {final : State Data Thread} {maxSize : Int}

/-- Every step keeps the order of the data. -/
theorem Faithful.step (faithful : Faithful trace st) (step : Step st action st') :
    Faithful (trace ++ [⟨st, action, st'⟩]) st' := by
  obtain ⟨cells, sound, order⟩ := faithful
  -- A step that neither pushes nor pulls leaves the queue and both histories alone.
  have idle (same : st'.queue = st.queue) (none_pushed : action.event.pushed = none)
      (none_pulled : action.event.pulled = none) :
      Faithful (trace ++ [⟨st, action, st'⟩]) st' := by
    refine ⟨cells, same ▸ sound, ?_⟩
    rw [pushed_step, pulled_step, none_pushed, none_pulled]
    simpa using order
  cases step with
  | callPush | callPull | waitPush | waitPull | spurious => exact idle rfl rfl rfl
  | @push thread newNode data queue _ room nonnull unused done =>
    -- What is pushed goes to the end of the queue and to the end of the history.
    obtain ⟨after, cells', result, kept, grown⟩ := sound.push room nonnull unused data
    obtain rfl := Option.some.inj (done.symm.trans result)
    refine ⟨cells', kept, ?_⟩
    rw [pushed_step, pulled_step, grown, ← order]
    simp [Event.pushed, Event.pulled]
  | @pull thread data queue _ occupied done =>
    -- What is pulled leaves the front of the queue for the end of the history.
    obtain ⟨first, after, rest, result, kept, shrunk⟩ := sound.pull occupied
    obtain ⟨rfl, rfl⟩ := Prod.mk.inj (Option.some.inj (done.symm.trans result))
    refine ⟨rest, kept, ?_⟩
    rw [shrunk] at order
    rw [pushed_step, pulled_step, ← order]
    simp [Event.pushed, Event.pulled]

/-- Every run keeps the order of the data. -/
theorem faithful_of_run (run : Run Step (start maxSize) trace final) : Faithful trace final := by
  -- At first the queue and both histories are empty.
  have empty : Faithful [] (start maxSize : State Data Thread) := ⟨[], .create maxSize, rfl⟩
  exact run.history empty fun _ _ _ _ faithful step => faithful.step step

/-- No step changes the maximum. -/
theorem maxSize_of_run (run : Run Step (start maxSize) trace final) :
    final.queue.maxSize = maxSize := by
  -- Only a push and a pull return another queue, and they keep its maximum.
  refine @Run.invariant _ _ _ _ _ _ (fun st => st.queue.maxSize = maxSize) run rfl ?_
  intro before action after same step
  rw [← same]
  cases step with
  | callPush | callPull | waitPush | waitPull | spurious => rfl
  | push _ _ _ _ done =>
    simp only [Queue.push] at done
    split at done
    · split at done
      · cases done
        rfl
      · cases done
    · cases done
      rfl
  | pull _ _ done =>
    simp only [Queue.pull] at done
    split at done
    · split at done <;> cases done <;> rfl
    · cases done

/--
In every run of any threads, the list from the head has as many nodes as the size says and ends at
the tail; head and tail are `NULL` exactly when the size is 0; the size stays within a positive
maximum; what was pulled followed by what is in the queue is what was pushed; and a thread that
need not wait follows no dangling pointer.
-/
theorem bounded_fifo (run : Run Step (start maxSize) trace final) :
    ∃ cells : List (Nat × Node Data),
      Chain Node.next final.queue.nodes 0 final.queue.head cells ∧
      final.queue.size = cells.length ∧ final.queue.tail = lastCell cells ∧
      (final.queue.head = 0 ↔ final.queue.size = 0) ∧
      (final.queue.tail = 0 ↔ final.queue.size = 0) ∧
      (0 < maxSize → final.queue.size ≤ maxSize) ∧
      pulled trace ++ contents cells = pushed trace ∧
      (∀ newNode data, ¬ final.queue.Full → newNode ≠ 0 → final.queue.nodes newNode = none →
        (final.queue.push newNode data).isSome) ∧
      (¬ final.queue.Empty → final.queue.pull.isSome) := by
  obtain ⟨cells, sound, order⟩ := faithful_of_run run
  -- The size counts the nodes.
  have emptied : cells = [] ↔ final.queue.size = 0 := by
    rw [sound.size, Int.natCast_eq_zero, List.length_eq_zero_iff]
  have bounded := sound.bounded
  rw [maxSize_of_run run] at bounded
  refine ⟨cells, sound.chain, sound.size, sound.tail, sound.head_eq_zero_iff.trans emptied,
    sound.tail_eq_zero_iff.trans emptied, bounded, order, ?_, ?_⟩
  · -- A push is defined wherever the queue is sound and has room.
    intro newNode data room nonnull unused
    obtain ⟨after, _, result, _⟩ := sound.push room nonnull unused data
    exact Option.isSome_of_eq_some result
  · intro occupied
    obtain ⟨data, after, _, result, _⟩ := sound.pull occupied
    exact Option.isSome_of_eq_some result

def sampleStart : State Nat Bool := start 1

def sampleCalled : State Nat Bool := sampleStart.goto true (.pushing 0)

def samplePushed : State Nat Bool :=
  sampleCalled.finish true
    ⟨16, 16, 1, 1, Function.update (fun _ => none) 16 (some ⟨0, 0⟩)⟩

/-- One thread pushes a null pointer into a queue of one. -/
theorem sample_run : Run Step (start 1)
    [⟨sampleStart, ⟨true, .callPush 0⟩, sampleCalled⟩, ⟨sampleCalled, ⟨true, .push 16 0⟩, samplePushed⟩]
    samplePushed := by
  have call : Step sampleStart ⟨true, .callPush 0⟩ sampleCalled := .callPush rfl
  have push : Step sampleCalled ⟨true, .push 16 0⟩ samplePushed :=
    .push rfl (by decide) (by decide) rfl rfl
  exact (Run.start.next call).next push

/-- The queue then holds the null pointer and has no room for more. -/
theorem bounded_fifo_sample :
    samplePushed.queue.size ≤ 1 ∧ (samplePushed.queue.head = 0 ↔ samplePushed.queue.size = 0) := by
  obtain ⟨_, _, _, _, head, _, bounded, _⟩ := bounded_fifo sample_run
  exact ⟨bounded (by decide), head⟩

end SystemProgramming.BlockingQueue
