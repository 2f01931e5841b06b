import SystemProgramming.BlockingQueue.Wakeups
import Mathlib.Data.Finset.Card
import Mathlib.Data.Fintype.EquivFin

/-! The nodes of the queue: none is lost, and destroying the queue frees each of them once. -/

namespace SystemProgramming.BlockingQueue

open Foundations

variable {Data Thread : Type*} {queue after : Queue Data} {cells : List (Nat × Node Data)}
  {data : Data}

/--
The loop of `queue_destroy`, from a node on: the nodes after it, and the addresses that it frees. It
has no result if it reads or frees what is not allocated.
-/
def freeNodes : Nat → (Nat → Option (Node Data)) → Nat →
    Option ((Nat → Option (Node Data)) × List Nat)
  | 0, _, _ => none
  | fuel + 1, nodes, it =>
    if it = 0 then some (nodes, [])
    else
      match nodes it with
      | none => none
      | some node =>
        -- The next node is read before this one is freed.
        (freeNodes fuel (Function.update nodes it none) node.next).map fun rest =>
          (rest.1, it :: rest.2)

/-- `queue_destroy`, up to the memory of the queue itself, the lock and the condition variable. -/
def queueDestroy (fuel : Nat) (queue : Queue Data) :
    Option ((Nat → Option (Node Data)) × List Nat) :=
  freeNodes fuel queue.nodes queue.head

/-- As many nodes are allocated as the queue holds. -/
def Accounted (queue : Queue Data) : Prop :=
  ∃ allocated : Finset Nat, (∀ address, address ∈ allocated ↔ queue.nodes address ≠ none) ∧
    (allocated.card : Int) = queue.size

/-- A new queue has no nodes. -/
theorem Accounted.create (maxSize : Int) : Accounted (queueCreate maxSize : Queue Data) :=
  ⟨∅, by simp [queueCreate], rfl⟩

/-- A push allocates its new node, and makes the queue one longer. -/
theorem push_nodes {newNode : Nat} (pushed : queue.push newNode data = some after) :
    after.size = queue.size + 1 ∧ after.maxSize = queue.maxSize ∧
      ∀ address, after.nodes address ≠ none ↔ address = newNode ∨ queue.nodes address ≠ none := by
  unfold Queue.push at pushed
  dsimp only at pushed
  split at pushed
  · split at pushed
    · next last found =>
      cases pushed
      refine ⟨rfl, rfl, fun address => ?_⟩
      -- The node that the tail points to was allocated before, or it is the new one.
      by_cases tail : address = queue.tail
      · subst tail
        by_cases new : queue.tail = newNode
        · simp [new]
        · rw [Function.update_of_ne new] at found
          simp [found]
      · dsimp only
        rw [Function.update_of_ne tail]
        by_cases new : address = newNode <;> simp [new]
    · cases pushed
  · -- In an empty queue there is no node to point to the new one.
    cases pushed
    refine ⟨rfl, rfl, fun address => ?_⟩
    by_cases new : address = newNode <;> simp [new]

/-- A pull frees the node at the head, and makes the queue one shorter. -/
theorem pull_nodes (pulled : queue.pull = some (data, after)) :
    after.size = queue.size - 1 ∧ after.maxSize = queue.maxSize ∧
      queue.nodes queue.head ≠ none ∧
      ∀ address, after.nodes address ≠ none ↔ address ≠ queue.head ∧ queue.nodes address ≠ none := by
  unfold Queue.pull at pulled
  split at pulled
  · next node found =>
    -- The head and the tail differ in the two branches, but the nodes do not.
    obtain ⟨size, maximum, nodes⟩ : after.size = queue.size - 1 ∧ after.maxSize = queue.maxSize ∧
        after.nodes = Function.update queue.nodes queue.head none := by
      split at pulled <;> (cases pulled; exact ⟨rfl, rfl, rfl⟩)
    refine ⟨size, maximum, by simp [found], fun address => ?_⟩
    rw [nodes]
    by_cases head : address = queue.head <;> simp [head]
  · cases pulled

/-- A push of a new node keeps the count of the nodes. -/
theorem Accounted.push (accounted : Accounted queue) {newNode : Nat}
    (unused : queue.nodes newNode = none) (pushed : queue.push newNode data = some after) :
    Accounted after := by
  obtain ⟨allocated, mem, size⟩ := accounted
  obtain ⟨longer, -, nodes⟩ := push_nodes pushed
  have fresh : newNode ∉ allocated := by simp [mem, unused]
  refine ⟨insert newNode allocated, fun address => ?_, ?_⟩
  · rw [Finset.mem_insert, mem, nodes]
  · rw [Finset.card_insert_of_notMem fresh, longer, ← size]
    rfl

/-- A pull keeps the count of the nodes. -/
theorem Accounted.pull (accounted : Accounted queue)
    (pulled : queue.pull = some (data, after)) : Accounted after := by
  obtain ⟨allocated, mem, size⟩ := accounted
  obtain ⟨shorter, -, there, nodes⟩ := pull_nodes pulled
  have head : queue.head ∈ allocated := (mem _).mpr there
  refine ⟨allocated.erase queue.head, fun address => ?_, ?_⟩
  · rw [Finset.mem_erase, mem, nodes]
  · rw [Finset.card_erase_of_mem head, shorter, ← size]
    -- The head was among them, so there was at least one.
    have := Finset.card_pos.mpr ⟨_, head⟩
    omega

/-- In a sound queue whose nodes are counted, the allocated nodes are those of the list. -/
theorem Accounted.linked (accounted : Accounted queue) (sound : Sound queue cells) (address : Nat) :
    queue.nodes address ≠ none ↔ address ∈ cells.map Prod.fst := by
  obtain ⟨allocated, mem, size⟩ := accounted
  have distinct := sound.chain.nodup sound.null
  -- The nodes of the list are allocated, and there are as many of them as are allocated.
  have stored : (cells.map Prod.fst).toFinset ⊆ allocated := by
    intro address member
    obtain ⟨cell, listed, rfl⟩ := List.mem_map.mp (List.mem_toFinset.mp member)
    rw [mem, sound.chain.stored listed]
    exact Option.some_ne_none _
  have same : (cells.map Prod.fst).toFinset = allocated := by
    refine Finset.eq_of_subset_of_card_le stored ?_
    rw [List.toFinset_card_of_nodup distinct, List.length_map]
    have := sound.size
    omega
  rw [← mem, ← same, List.mem_toFinset]

/-- Some address is not in use. -/
theorem Accounted.fresh (accounted : Accounted queue) :
    ∃ newNode, newNode ≠ 0 ∧ queue.nodes newNode = none := by
  obtain ⟨allocated, mem, -⟩ := accounted
  -- Finitely many addresses are in use, and the null pointer is none.
  obtain ⟨newNode, fresh⟩ := Infinite.exists_notMem_finset (insert 0 allocated)
  rw [Finset.mem_insert, not_or, mem, not_not] at fresh
  exact ⟨newNode, fresh⟩

/-- The loop frees exactly the nodes of the list. -/
theorem freeNodes_eq {nodes : Nat → Option (Node Data)} {it : Nat} (null : nodes 0 = none)
    (chain : Chain Node.next nodes 0 it cells) :
    ∃ left, freeNodes (cells.length + 1) nodes it = some (left, cells.map Prod.fst) ∧
      ∀ address, left address =
        if address ∈ cells.map Prod.fst then none else nodes address := by
  -- Each turn takes the first node of the list away.
  induction cells generalizing nodes it with
  | nil =>
    refine ⟨nodes, if_pos chain, fun address => ?_⟩
    exact (if_neg List.not_mem_nil).symm
  | cons cell cells ih =>
    obtain ⟨address, node⟩ := cell
    obtain ⟨rfl, found, -⟩ := id chain
    have occupied : address ≠ 0 := by
      rintro rfl
      rw [null] at found
      cases found
    -- The null pointer is no node, so the rest of the loop starts from a chain as well.
    have still : Function.update nodes address none 0 = none := by
      rw [Function.update_of_ne (Ne.symm occupied), null]
    obtain ⟨left, freed, nothing⟩ := ih still (chain.behead null)
    refine ⟨left, ?_, fun other => ?_⟩
    · rw [List.length_cons, freeNodes, if_neg occupied, found]
      simp only [freed]
      rfl
    · rw [nothing, List.map_cons]
      by_cases first : other = address
      · simp [first]
      · simp only [List.mem_cons, first, false_or, Function.update_of_ne first]

variable [DecidableEq Thread]
  {trace : List (Transition (Monitor.State (Queue Data) (Call Data) (Outcome Data) Thread)
    (Monitor.Action (Call Data) (Outcome Data) Thread))}
  {final : Monitor.State (Queue Data) (Call Data) (Outcome Data) Thread} {maxSize : Int}

/-- A call of `queue_push`. -/
def Call.isPush : Call Data → Bool
  | push _ => true
  | pull => false

/-- A call of `queue_pull`. -/
def Call.isPull : Call Data → Bool
  | push _ => false
  | pull => true

@[simp] theorem Call.isPush_push : (push data).isPush = true := rfl

@[simp] theorem Call.isPush_pull : (pull : Call Data).isPush = false := rfl

@[simp] theorem Call.isPull_push : (push data).isPull = false := rfl

@[simp] theorem Call.isPull_pull : (pull : Call Data).isPull = true := rfl

/-- The queue is sound, its nodes are counted, and its size is what the calls made of it. -/
structure Kept (maxSize : Int) (past : List (Call Data × Outcome Data)) (queue : Queue Data) :
    Prop where
  sound : ∃ cells, Sound queue cells
  accounted : Accounted queue
  maximum : queue.maxSize = maxSize
  size : queue.size + past.countP (fun effect => effect.1.isPull) =
    past.countP fun effect => effect.1.isPush

/-- What a call does keeps all of this. -/
theorem Kept.does {past : List (Call Data × Outcome Data)} {call : Call Data}
    {outcome : Outcome Data} (kept : Kept maxSize past queue) (ready : ¬ call.Waits queue)
    (does : call.Does queue outcome after) :
    Kept maxSize (past ++ [(call, outcome)]) after := by
  obtain ⟨⟨cells, sound⟩, accounted, maximum, size⟩ := kept
  cases call with
  | push data =>
    cases outcome with
    | pulled => exact does.elim
    | pushed newNode =>
      -- What the push did is what is known of one into a queue with room.
      obtain ⟨nonnull, unused, pushed⟩ := does
      obtain ⟨next, longer, same, sound', -⟩ := sound.push ready nonnull unused data
      obtain ⟨grown, bound, -⟩ := push_nodes pushed
      rw [pushed] at same
      cases same
      refine ⟨⟨longer, sound'⟩, accounted.push unused pushed, bound.trans maximum, ?_⟩
      simp only [List.countP_append, List.countP_singleton, Call.isPush_push, Call.isPull_push,
        grown, Bool.false_eq_true, if_true, if_false]
      omega
  | pull =>
    cases outcome with
    | pushed => exact does.elim
    | pulled data =>
      -- What the pull took is the first value of a queue that is not empty.
      obtain ⟨first, next, rest, same, sound', -⟩ := sound.pull ready
      obtain ⟨shrunk, bound, -⟩ := pull_nodes does
      rw [does] at same
      cases same
      refine ⟨⟨rest, sound'⟩, accounted.pull does, bound.trans maximum, ?_⟩
      simp only [List.countP_append, List.countP_singleton, Call.isPush_pull, Call.isPull_pull,
        shrunk, Bool.false_eq_true, if_true, if_false]
      omega

/-- All of this holds in every state of every run, whoever has the lock. -/
theorem kept_of_run
    (run : Run (queueMonitor Data).Step (Monitor.start (queueCreate maxSize)) trace final) :
    Kept maxSize (Monitor.effects trace) final.shared := by
  refine Monitor.shared_invariant run ⟨⟨[], .create maxSize⟩, .create maxSize, rfl, rfl⟩ ?_
  -- Only the calls change the queue, each while it has the lock.
  intro past before call result after kept ready does
  exact kept.does ready does

/--
In every state of every run, the nodes that are allocated are those in the list, as many as the
pushes that had their effect were more than the pulls; and destroying the queue then is defined,
frees each of them once, and leaves none.
-/
theorem nodes_freed
    (run : Run (queueMonitor Data).Step (Monitor.start (queueCreate maxSize)) trace final) :
    ∃ cells : List (Nat × Node Data), Chain Node.next final.shared.nodes 0 final.shared.head cells ∧
      (∀ address, final.shared.nodes address ≠ none ↔ address ∈ cells.map Prod.fst) ∧
      cells.length + (Monitor.effects trace).countP (fun effect => effect.1.isPull) =
        (Monitor.effects trace).countP (fun effect => effect.1.isPush) ∧
      (cells.map Prod.fst).Nodup ∧
      queueDestroy (cells.length + 1) final.shared = some (fun _ => none, cells.map Prod.fst) := by
  obtain ⟨⟨cells, sound⟩, accounted, -, size⟩ := kept_of_run run
  have linked := accounted.linked sound
  refine ⟨cells, sound.chain, linked, ?_, sound.chain.nodup sound.null, ?_⟩
  · have := sound.size
    omega
  · obtain ⟨left, freed, nothing⟩ := freeNodes_eq sound.null sound.chain
    rw [queueDestroy, freed]
    -- What is not in the list was not allocated before.
    have gone : left = fun _ => none := by
      funext address
      rw [nothing]
      split
      · rfl
      next unlisted => exact not_not.mp fun there => unlisted ((linked address).mp there)
    rw [gone]

/-- A single thread pushes a null pointer, its node being at address 16. -/
theorem producer_run : ∃ trace, Run (queueMonitor Nat).Step
    (Monitor.start (queueCreate 1) : Monitor.State _ _ _ Unit) trace
    ⟨⟨16, 16, 1, 1, Function.update (fun _ => none) 16 (some ⟨0, 0⟩)⟩, fun _ => .outside, none⟩ := by
  let pushed : Queue Nat := ⟨16, 16, 1, 1, Function.update (fun _ => none) 16 (some ⟨0, 0⟩)⟩
  let stage (stage : Monitor.Stage (Call Nat) (Outcome Nat)) (queue : Queue Nat) :
      Monitor.State (Queue Nat) (Call Nat) (Outcome Nat) Unit := ⟨queue, fun _ => stage, some ()⟩
  have call : (queueMonitor Nat).Step (Monitor.start (queueCreate 1)) ⟨(), .call (.push 0)⟩
      ⟨queueCreate 1, fun _ => .locking (.push 0), none⟩ := .call rfl
  have lock : (queueMonitor Nat).Step ⟨queueCreate 1, fun _ => .locking (.push 0), none⟩ ⟨(), .lock⟩
      (stage (.testing (.push 0)) (queueCreate 1)) := .lock rfl rfl
  -- The new queue has room for one.
  have act : (queueMonitor Nat).Step (stage (.testing (.push 0)) (queueCreate 1))
      ⟨(), .act (.push 0) (.pushed 16)⟩ (stage (.changed (.push 0) (.pushed 16)) pushed) :=
    .act rfl (show ¬ (queueCreate 1 : Queue Nat).Full by decide) ⟨by decide, rfl, rfl⟩
  have broadcast : (queueMonitor Nat).Step (stage (.changed (.push 0) (.pushed 16)) pushed)
      ⟨(), .broadcast⟩ (stage (.leaving (.push 0) (.pushed 16)) pushed) := .broadcast rfl
  have unlock : (queueMonitor Nat).Step (stage (.leaving (.push 0) (.pushed 16)) pushed)
      ⟨(), .unlock (.push 0) (.pushed 16)⟩ ⟨pushed, fun _ => .outside, none⟩ := .unlock rfl
  exact ⟨_, ((((Run.start.next call).next lock).next act).next broadcast).next unlock⟩

/-- Destroying the queue then frees that node. -/
theorem nodes_freed_producer : ∃ fuel freed,
    queueDestroy fuel (⟨16, 16, 1, 1, Function.update (fun _ => none) 16 (some ⟨0, 0⟩)⟩ : Queue Nat) =
      some (fun _ => none, freed) ∧ 16 ∈ freed := by
  obtain ⟨trace, run⟩ := producer_run
  obtain ⟨cells, -, linked, -, -, freed⟩ := nodes_freed run
  exact ⟨_, _, freed, (linked 16).mp (by simp)⟩

end SystemProgramming.BlockingQueue
