import SystemProgramming.Foundations.Chain
import SystemProgramming.Foundations.Runs

/-! The blocking queue: a linked list under a lock, with threads that wait until they can go on. -/

namespace SystemProgramming.BlockingQueue

open Foundations

/-- A `queue_node`. -/
structure Node (Data : Type*) where
  data : Data
  next : Nat
  deriving DecidableEq, Repr

/-- A `struct queue`, with the queue nodes that are allocated; address 0 is `NULL`. -/
structure Queue (Data : Type*) where
  head : Nat
  tail : Nat
  size : Int
  maxSize : Int
  nodes : Nat → Option (Node Data)

section Functions

variable {Data : Type*}

/-- `queue_create`. -/
def queueCreate (maxSize : Int) : Queue Data where
  head := 0
  tail := 0
  size := 0
  maxSize := maxSize
  nodes _ := none

/-- The condition under which `queue_push` waits. -/
def Queue.Full (queue : Queue Data) : Prop :=
  -- A maximum that is not positive means that there is none.
  0 < queue.maxSize ∧ queue.maxSize ≤ queue.size

instance Queue.decidableFull (queue : Queue Data) : Decidable queue.Full :=
  inferInstanceAs (Decidable (_ ∧ _))

/-- The condition under which `queue_pull` waits. -/
def Queue.Empty (queue : Queue Data) : Prop := queue.head = 0

instance Queue.decidableEmpty (queue : Queue Data) : Decidable queue.Empty :=
  inferInstanceAs (Decidable (_ = _))

/--
What `queue_push` does after its wait, with the address that `malloc` returned. It is undefined
where the tail points to no allocated node.
-/
def Queue.push (queue : Queue Data) (newNode : Nat) (data : Data) : Option (Queue Data) :=
  let nodes := Function.update queue.nodes newNode (some ⟨data, 0⟩)
  if queue.tail ≠ 0 then
    match nodes queue.tail with
    | some last => some
      { queue with
        nodes := Function.update nodes queue.tail (some { last with next := newNode })
        tail := newNode
        size := queue.size + 1 }
    | none => none
  else some
    { queue with
      nodes := nodes
      head := newNode
      tail := newNode
      size := queue.size + 1 }

/--
What `queue_pull` does after its wait. It is undefined where the head points to no allocated node.
-/
def Queue.pull (queue : Queue Data) : Option (Data × Queue Data) :=
  match queue.nodes queue.head with
  | some node =>
    let nodes := Function.update queue.nodes queue.head none
    if node.next = 0 then
      some (node.data, { queue with head := 0, tail := 0, nodes := nodes, size := queue.size - 1 })
    else
      some (node.data, { queue with head := node.next, nodes := nodes, size := queue.size - 1 })
  | none => none

end Functions

/-- Where a thread is. -/
inductive Place (Data : Type*) where
  /-- Outside of the queue. -/
  | outside
  /-- In `queue_push`, about to lock the queue, for the first time or after a wait. -/
  | pushing (data : Data)
  /-- In the wait of `queue_push`, not woken. -/
  | pushParked (data : Data)
  /-- In `queue_pull`, about to lock the queue, for the first time or after a wait. -/
  | pulling
  /-- In the wait of `queue_pull`, not woken. -/
  | pullParked
  deriving DecidableEq, Repr

/-- A broadcast, or a spurious wakeup, brings a waiting thread back to its loop condition. -/
def Place.woken {Data : Type*} : Place Data → Place Data
  | pushParked data => pushing data
  | pullParked => pulling
  | place => place

/-- The queue and the threads that use it. -/
structure State (Data Thread : Type*) where
  queue : Queue Data
  place : Thread → Place Data

/-- A new queue, with all threads outside. -/
def start {Data Thread : Type*} (maxSize : Int) : State Data Thread where
  queue := queueCreate maxSize
  place _ := .outside

/-- What a thread does in one step. -/
inductive Event (Data : Type*) where
  | callPush (data : Data)
  | callPull
  | waitPush
  | waitPull
  | push (newNode : Nat) (data : Data)
  | pull (data : Data)
  | spurious
  deriving DecidableEq, Repr

/-- A step of one thread. -/
structure Action (Data Thread : Type*) where
  thread : Thread
  event : Event Data
  deriving DecidableEq, Repr

section Steps

variable {Data Thread : Type*} [DecidableEq Thread]

/-- One thread moves to another place. -/
def State.goto (st : State Data Thread) (thread : Thread) (place : Place Data) :
    State Data Thread := { st with place := Function.update st.place thread place }

/-- The queue changes, all waiting threads are woken, and one thread leaves. -/
def State.finish (st : State Data Thread) (thread : Thread) (queue : Queue Data) :
    State Data Thread where
  queue := queue
  place := Function.update (fun other => (st.place other).woken) thread .outside

/--
The steps of the threads. The lock is held from its acquisition to a wait or to the end of the
function, so that each of these stretches is one step.
-/
inductive Step : State Data Thread → Action Data Thread → State Data Thread → Prop
  | callPush {st : State Data Thread} {thread : Thread} {data : Data} :
      st.place thread = .outside →
      Step st ⟨thread, .callPush data⟩ (st.goto thread (.pushing data))
  | callPull {st : State Data Thread} {thread : Thread} :
      st.place thread = .outside → Step st ⟨thread, .callPull⟩ (st.goto thread .pulling)
  | waitPush {st : State Data Thread} {thread : Thread} {data : Data} :
      st.place thread = .pushing data → st.queue.Full →
      Step st ⟨thread, .waitPush⟩ (st.goto thread (.pushParked data))
  | waitPull {st : State Data Thread} {thread : Thread} :
      st.place thread = .pulling → st.queue.Empty →
      Step st ⟨thread, .waitPull⟩ (st.goto thread .pullParked)
  | push {st : State Data Thread} {thread : Thread} {newNode : Nat} {data : Data}
      {queue : Queue Data} :
      st.place thread = .pushing data → ¬ st.queue.Full →
      -- `malloc` returns the address of a node that is not in use.
      newNode ≠ 0 → st.queue.nodes newNode = none →
      st.queue.push newNode data = some queue →
      Step st ⟨thread, .push newNode data⟩ (st.finish thread queue)
  | pull {st : State Data Thread} {thread : Thread} {data : Data} {queue : Queue Data} :
      st.place thread = .pulling → ¬ st.queue.Empty →
      st.queue.pull = some (data, queue) →
      Step st ⟨thread, .pull data⟩ (st.finish thread queue)
  | spurious {st : State Data Thread} {thread : Thread} :
      Step st ⟨thread, .spurious⟩ (st.goto thread (st.place thread).woken)

end Steps

end SystemProgramming.BlockingQueue
