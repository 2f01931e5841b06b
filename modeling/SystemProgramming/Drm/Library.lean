import SystemProgramming.Foundations.DirectedGraph
import SystemProgramming.Foundations.Runs

/-! Deadlock-resistant mutexes: the resource graph, its cycle check, and the threads' steps. -/

namespace SystemProgramming.Drm

open Foundations

/-- The vertices of the resource graph are the thread ids and the drm objects. -/
inductive Resource (Thread Drm : Type*) where
  | thread (threadId : Thread)
  | drm (drm : Drm)
  deriving DecidableEq, Repr

/-- The resource graph. -/
abbrev Resources (Thread Drm : Type*) := DirectedGraph (Resource Thread Drm)

section Functions

variable {Thread Drm : Type*} [DecidableEq Thread] [DecidableEq Drm]

/-- The loop of `has_cycle` over the neighbors, with the set of visited vertices if there is one. -/
def visitAll {Vertex : Type*}
    (hasCycle : Vertex → Option (List Vertex) → Option (Bool × Option (List Vertex))) :
    List Vertex → Option (List Vertex) → Option (Bool × Option (List Vertex))
  | [], visitedVertex => some (false, visitedVertex)
  | newVer :: rest, visitedVertex =>
    match hasCycle newVer visitedVertex with
    -- The first cycle that is found ends the loop.
    | some (true, visitedVertex) => some (true, visitedVertex)
    | some (false, visitedVertex) => visitAll hasCycle rest visitedVertex
    | none => none

/--
`has_cycle`, with the global `visited_vertex` passed along; `none` stands for `NULL`. The first
argument bounds the depth of the recursion.
-/
def hasCycle {Vertex : Type*} [DecidableEq Vertex] (g : DirectedGraph Vertex) :
    Nat → Vertex → Option (List Vertex) → Option (Bool × Option (List Vertex))
  | 0, _, _ => none
  | fuel + 1, vertex, visitedVertex =>
    let visited := visitedVertex.getD []
    -- The vertex is met again, and the set is destroyed.
    if vertex ∈ visited then some (true, none)
    else
      match visitAll (hasCycle g fuel) (g.neighbors vertex) (some (vertex :: visited)) with
      -- The set is left to the call that found the cycle, which has destroyed it.
      | some (true, visitedVertex) => some (true, visitedVertex)
      | some (false, _) => some (false, none)
      | none => none

/-- `drm_wait` up to the lock of the drm: the new graph, and whether the thread goes on to it. -/
def drmWait (g : Resources Thread Drm) (fuel : Nat)
    (visitedVertex : Option (List (Resource Thread Drm))) (threadId : Thread) (drm : Drm) :
    Option (Resources Thread Drm × Option (List (Resource Thread Drm)) × Bool) :=
  let g := if .thread threadId ∈ g.vertices then g else g.addVertex (.thread threadId)
  -- A thread that owns the drm already is refused.
  if .drm drm ∈ g.vertices ∧ g.Edge (.drm drm) (.thread threadId) then
    some (g, visitedVertex, false)
  else
    -- The edge is added first, and taken back if it closes a cycle.
    let g := g.addEdge (.thread threadId) (.drm drm)
    match hasCycle g fuel (.thread threadId) visitedVertex with
    | some (false, visitedVertex) => some (g, visitedVertex, true)
    | some (true, visitedVertex) =>
      some (g.removeEdge (.thread threadId) (.drm drm), visitedVertex, false)
    | none => none

/-- The graph of `drm_wait` with the thread as a vertex. -/
def entered (g : Resources Thread Drm) (thread : Thread) : Resources Thread Drm :=
  if .thread thread ∈ g.vertices then g else g.addVertex (.thread thread)

/-- `drm_wait` after the lock of the drm: the thread owns it now. -/
def drmOwn (g : Resources Thread Drm) (threadId : Thread) (drm : Drm) : Resources Thread Drm :=
  -- The request becomes an ownership: the edge is turned around.
  (g.removeEdge (.thread threadId) (.drm drm)).addEdge (.drm drm) (.thread threadId)

/-- `drm_post` unlocks the drm only if the thread owns it in the graph. -/
def Posts (g : Resources Thread Drm) (threadId : Thread) (drm : Drm) : Prop :=
  .thread threadId ∈ g.vertices ∧ .drm drm ∈ g.vertices ∧ g.Edge (.drm drm) (.thread threadId)

instance decidablePosts (g : Resources Thread Drm) (threadId : Thread) (drm : Drm) :
    Decidable (Posts g threadId drm) := inferInstanceAs (Decidable (_ ∧ _ ∧ _))

end Functions

/-- A `pthread_mutex_t`; before its first initialization it cannot be used either. -/
inductive Mutex (Thread : Type*) where
  | destroyed
  | free
  | held (thread : Thread)
  deriving DecidableEq, Repr

/-- Where a thread is. -/
inductive Place (Drm : Type*) where
  | outside
  /-- In `drm_wait`, at the lock of the drm. -/
  | blocked (drm : Drm)
  /-- In `drm_wait`, with the drm locked, before the edges are swapped. -/
  | owning (drm : Drm)
  /-- In `drm_destroy`, before the mutexes are destroyed. -/
  | destroying (drm : Drm)
  deriving DecidableEq, Repr

/-- The library, its objects, and the threads; `live` are the objects that callers may use. -/
structure State (Thread Drm : Type*) where
  graph : Resources Thread Drm
  visitedVertex : Option (List (Resource Thread Drm))
  libraryMut : Mutex Thread
  objectMut : Drm → Mutex Thread
  live : Drm → Prop
  place : Thread → Place Drm

/-- At first there are no objects. -/
def start {Thread Drm : Type*} : State Thread Drm where
  graph := .empty
  visitedVertex := none
  libraryMut := .free
  objectMut _ := .destroyed
  live _ := False
  place _ := .outside

/-- What a thread does in one step. -/
inductive Event (Drm : Type*) where
  /-- `drm_init`. -/
  | init (drm : Drm)
  /-- `drm_init`, when `malloc` fails. -/
  | initFailed
  /-- `drm_wait` up to the lock of the drm. -/
  | wait (drm : Drm)
  /-- The lock of the drm in `drm_wait`. -/
  | acquire (drm : Drm)
  /-- The rest of `drm_wait`. -/
  | own (drm : Drm)
  /-- `drm_post`. -/
  | post (drm : Drm)
  /-- `drm_destroy` up to the end of its locked section. -/
  | destroy (drm : Drm)
  /-- The rest of `drm_destroy`. -/
  | dispose (drm : Drm)
  deriving DecidableEq, Repr

/-- A step of one thread. -/
structure Action (Thread Drm : Type*) where
  thread : Thread
  event : Event Drm
  deriving DecidableEq, Repr

section Steps

variable {Thread Drm : Type*} [DecidableEq Thread] [DecidableEq Drm]

/-- One thread moves to another place. -/
def State.goto (st : State Thread Drm) (thread : Thread) (place : Place Drm) : State Thread Drm :=
  { st with place := Function.update st.place thread place }

/--
The steps of the threads. Each section under the library mutex is one step. Callers use live
objects only, and destroy an object only when it is unlocked and no other thread is using it.
-/
inductive Step : State Thread Drm → Action Thread Drm → State Thread Drm → Prop
  | init {st : State Thread Drm} {thread : Thread} {drm : Drm} :
      st.place thread = .outside →
      -- `malloc` returns memory that is not in use.
      ¬ st.live drm → (∀ other, st.place other ≠ .destroying drm) →
      Step st ⟨thread, .init drm⟩
        { st with
          graph := st.graph.addVertex (.drm drm)
          objectMut := Function.update st.objectMut drm .free
          live := fun other => other = drm ∨ st.live other }
  | initFailed {st : State Thread Drm} {thread : Thread} :
      st.place thread = .outside → Step st ⟨thread, .initFailed⟩ st
  | wait {st : State Thread Drm} {thread : Thread} {drm : Drm} {fuel : Nat}
      {graph : Resources Thread Drm} {visited : Option (List (Resource Thread Drm))}
      {goesOn : Bool} :
      st.place thread = .outside → st.live drm →
      drmWait st.graph fuel st.visitedVertex thread drm = some (graph, visited, goesOn) →
      Step st ⟨thread, .wait drm⟩
        { st.goto thread (if goesOn then .blocked drm else .outside) with
          graph := graph
          visitedVertex := visited }
  | acquire {st : State Thread Drm} {thread : Thread} {drm : Drm} :
      st.place thread = .blocked drm → st.objectMut drm = .free →
      Step st ⟨thread, .acquire drm⟩
        { st.goto thread (.owning drm) with
          objectMut := Function.update st.objectMut drm (.held thread) }
  | own {st : State Thread Drm} {thread : Thread} {drm : Drm} :
      st.place thread = .owning drm →
      Step st ⟨thread, .own drm⟩
        { st.goto thread .outside with graph := drmOwn st.graph thread drm }
  | post {st : State Thread Drm} {thread : Thread} {drm : Drm} :
      st.place thread = .outside → st.live drm →
      Step st ⟨thread, .post drm⟩
        (if Posts st.graph thread drm then
          { st with
            graph := st.graph.removeEdge (.drm drm) (.thread thread)
            objectMut := Function.update st.objectMut drm .free }
        else st)
  | destroy {st : State Thread Drm} {thread : Thread} {drm : Drm} :
      st.place thread = .outside → st.live drm → st.objectMut drm = .free →
      (∀ other, st.place other ≠ .blocked drm ∧ st.place other ≠ .owning drm) →
      Step st ⟨thread, .destroy drm⟩
        { st.goto thread (.destroying drm) with
          graph := st.graph.removeVertex (.drm drm)
          live := fun other => other ≠ drm ∧ st.live other }
  | dispose {st : State Thread Drm} {thread : Thread} {drm : Drm} :
      st.place thread = .destroying drm →
      Step st ⟨thread, .dispose drm⟩
        { st.goto thread .outside with
          libraryMut := .destroyed
          objectMut := Function.update st.objectMut drm .destroyed }

end Steps

end SystemProgramming.Drm
