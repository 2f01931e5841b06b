import SystemProgramming.Drm.CycleCheck

/-! The resource graph never has a cycle, so threads never block each other in a circle. -/

namespace SystemProgramming.Drm

open Foundations Relation

variable {Thread Drm : Type*} {st st' : State Thread Drm} {action : Action Thread Drm}
  {thread other : Thread} {drm : Drm} {node : Resource Thread Drm}

/-- The thread is in `drm_wait`, between the two sections under the library mutex. -/
def Waiting (place : Place Drm) (drm : Drm) : Prop := place = .blocked drm ∨ place = .owning drm

/--
What the edges of the graph mean: a thread points to the drm that it waits for, or that it has just
locked; a drm points to the thread that holds it, except for that same moment.
-/
structure Tracked (st : State Thread Drm) : Prop where
  thread_edge : ∀ thread node, st.graph.Edge (.thread thread) node ↔
    ∃ drm, node = .drm drm ∧ Waiting (st.place thread) drm
  drm_edge : ∀ drm node, st.graph.Edge (.drm drm) node ↔
    ∃ thread, node = .thread thread ∧ st.objectMut drm = .held thread ∧
      st.place thread ≠ .owning drm
  owning : ∀ thread drm, st.place thread = .owning drm → st.objectMut drm = .held thread
  acyclic : Acyclic st.graph.Edge
  unvisited : st.visitedVertex = none
  waiting_live : ∀ thread drm, Waiting (st.place thread) drm → st.live drm
  held_live : ∀ drm thread, st.objectMut drm = .held thread → st.live drm
  destroying_dead : ∀ thread drm, st.place thread = .destroying drm → ¬ st.live drm

/-- A thread waits for one drm at a time. -/
theorem Waiting.unique {place : Place Drm} {other : Drm} (waiting : Waiting place drm)
    (also : Waiting place other) : drm = other := by
  -- A place names one drm.
  rcases waiting with rfl | rfl <;> rcases also with same | same <;> cases same <;> rfl

@[simp] theorem not_waiting_outside : ¬ Waiting .outside drm := by simp [Waiting]

@[simp] theorem not_waiting_destroying {other : Drm} : ¬ Waiting (.destroying other) drm := by
  simp [Waiting]

/-- No vertex of a tracked graph has more than one edge out of it. -/
theorem Tracked.outUnique (tracked : Tracked st) : OutUnique st.graph.Edge := by
  -- A thread waits for one drm, and a drm is held by one thread.
  intro vertex first second one two
  cases vertex with
  | thread thread =>
    obtain ⟨drm, rfl, waiting⟩ := (tracked.thread_edge thread first).mp one
    obtain ⟨_, rfl, also⟩ := (tracked.thread_edge thread second).mp two
    rw [waiting.unique also]
  | drm drm =>
    obtain ⟨thread, rfl, holds, _⟩ := (tracked.drm_edge drm first).mp one
    obtain ⟨_, rfl, also, _⟩ := (tracked.drm_edge drm second).mp two
    rw [Mutex.held.inj (holds.symm.trans also)]

/-- A thread that is not in `drm_wait` has no edge. -/
theorem Tracked.no_edge (tracked : Tracked st) (outside : st.place thread = .outside) :
    ¬ st.graph.Edge (.thread thread) node := by
  -- An edge of the thread would mean that it waits.
  intro edge
  obtain ⟨drm, _, waiting⟩ := (tracked.thread_edge thread node).mp edge
  rw [outside] at waiting
  exact not_waiting_outside waiting

/-- At first there are no edges. -/
theorem Tracked.start : Tracked (start : State Thread Drm) where
  thread_edge thread node := by simp [SystemProgramming.Drm.start, DirectedGraph.empty, DirectedGraph.Edge]
  drm_edge drm node := by simp [SystemProgramming.Drm.start, DirectedGraph.empty, DirectedGraph.Edge]
  owning _ _ := nofun
  -- A cycle begins with an edge, and there is none.
  acyclic vertex cycle := by
    obtain ⟨next, step, _⟩ := TransGen.head'_iff.mp cycle
    cases step
  unvisited := rfl
  waiting_live _ _ waiting := absurd waiting not_waiting_outside
  held_live _ _ := nofun
  destroying_dead _ _ := nofun

/-- A thread is blocked on a drm that another thread holds. -/
def WaitsFor (st : State Thread Drm) (thread other : Thread) : Prop :=
  ∃ drm, st.place thread = .blocked drm ∧ st.objectMut drm = .held other

/-- Where blocked threads wait for each other, the graph leads from one to the other. -/
theorem Tracked.way (tracked : Tracked st) (waits : TransGen (WaitsFor st) thread other)
    (blocked : ∃ last, WaitsFor st other last) :
    TransGen st.graph.Edge (.thread thread) (.thread other) := by
  -- A thread that is blocked itself is not between its lock and its swap of the edges.
  have two {first second : Thread} (one : WaitsFor st first second)
      (blocked : ∃ last, WaitsFor st second last) :
      TransGen st.graph.Edge (.thread first) (.thread second) := by
    obtain ⟨drm, place, holds⟩ := one
    obtain ⟨_, _, elsewhere, _⟩ := blocked
    have out := (tracked.thread_edge first (.drm drm)).mpr ⟨drm, rfl, .inl place⟩
    have back := (tracked.drm_edge drm (.thread second)).mpr
      ⟨second, rfl, holds, by rw [elsewhere]; nofun⟩
    exact (TransGen.single out).tail back
  -- The induction follows the threads that wait for each other.
  induction waits with
  | single step => exact two step blocked
  | tail _ step ih => exact (ih ⟨_, step⟩).trans (two step blocked)

/-- So they never block each other in a circle. -/
theorem Tracked.no_circle (tracked : Tracked st) : Acyclic (WaitsFor st) := by
  -- A circle of threads would be a cycle of the graph.
  intro thread circle
  obtain ⟨next, step, _⟩ := TransGen.head'_iff.mp circle
  exact tracked.acyclic _ (tracked.way circle ⟨next, step⟩)

variable [DecidableEq Thread]

/-- A thread that is not between its lock and its swap, before and after, changes no drm's edge. -/
theorem owning_update {places : Thread → Place Drm} {place : Place Drm}
    (old : places thread ≠ .owning drm) (new : place ≠ .owning drm) (other : Thread) :
    Function.update places thread place other = .owning drm ↔ places other = .owning drm := by
  -- Only the moved thread could make a difference, and it is at no such place.
  rw [Function.update_apply]
  split
  · rename_i same
    rw [same]
    exact ⟨fun owns => absurd owns new, fun owns => absurd owns old⟩
  · exact Iff.rfl

/-- A thread that waits for the same drm, before and after, changes no thread's edge. -/
theorem waiting_update {places : Thread → Place Drm} {place : Place Drm}
    (same : Waiting place drm ↔ Waiting (places thread) drm) (other : Thread) :
    Waiting (Function.update places thread place other) drm ↔ Waiting (places other) drm := by
  -- Only the moved thread could make a difference.
  rw [Function.update_apply]
  split
  · rename_i equal
    rw [same, equal]
  · exact Iff.rfl

/-- What is no place of the moved thread is a place where another thread was. -/
theorem place_update {places : Thread → Place Drm} {place target : Place Drm}
    (now : Function.update places thread place other = target) (moved : place ≠ target) :
    other ≠ thread ∧ places other = target := by
  -- The moved thread is elsewhere, so it is another one.
  rw [Function.update_apply] at now
  split at now
  · exact absurd now moved
  · rename_i different
    exact ⟨different, now⟩

/-- Going on to the lock adds the thread's edge to the drm. -/
theorem Tracked.wait {graph : Resources Thread Drm} (tracked : Tracked st)
    (outside : st.place thread = .outside) (alive : st.live drm)
    (edges : ∀ a b, graph.Edge a b ↔ a = .thread thread ∧ b = .drm drm ∨ st.graph.Edge a b)
    (open_end : ¬ TransGen graph.Edge (.thread thread) (.thread thread)) :
    Tracked { st.goto thread (.blocked drm) with graph := graph } where
  thread_edge other node := by
    simp only [edges, State.goto]
    -- The thread has the new edge only, and the others keep theirs.
    by_cases same : other = thread
    · subst same
      have none : ¬ st.graph.Edge (.thread other) node := tracked.no_edge outside
      simp [none, Waiting, Function.update_self]
    · rw [Function.update_of_ne same, tracked.thread_edge other node]
      simp [same]
  drm_edge other node := by
    simp only [edges, State.goto]
    -- The thread is between no lock and no swap, before and after.
    have old : st.place thread ≠ .owning other := by
      rw [outside]
      nofun
    have new : Place.blocked drm ≠ .owning other := nofun
    simp [owning_update old new, tracked.drm_edge other node]
  owning other last owns := by
    obtain ⟨_, before⟩ := place_update owns nofun
    exact tracked.owning other last before
  acyclic := by
    -- A cycle would have to use the new edge, and so to pass through the thread.
    refine tracked.acyclic.add (fun a b => Or.symm ∘ (edges a b).mp) fun way => open_end ?_
    have more := ReflTransGen.mono (fun a b old => (edges a b).mpr (.inr old)) _ _ way
    exact .head' ((edges _ _).mpr (.inl ⟨rfl, rfl⟩)) more
  unvisited := tracked.unvisited
  waiting_live other last waiting := by
    simp only [State.goto, Function.update_apply] at waiting
    -- The thread waits for a live drm, and the others for what they waited for.
    split at waiting
    · have same : drm = last := Waiting.unique (.inl rfl) waiting
      exact same ▸ alive
    · exact tracked.waiting_live other last waiting
  held_live := tracked.held_live
  destroying_dead other last destroying := by
    obtain ⟨_, before⟩ := place_update destroying nofun
    exact tracked.destroying_dead other last before

/-- A refused wait leaves the edges as they were. -/
theorem Tracked.refused {graph : Resources Thread Drm} (tracked : Tracked st)
    (outside : st.place thread = .outside) (same : ∀ a b, graph.Edge a b ↔ st.graph.Edge a b) :
    Tracked { st.goto thread .outside with graph := graph } := by
  -- The thread is where it was before the call.
  have unmoved : Function.update st.place thread .outside = st.place := by
    rw [← outside]
    exact Function.update_eq_self _ _
  exact {
    thread_edge := fun other node => by
      simp only [State.goto, unmoved, same]
      exact tracked.thread_edge other node
    drm_edge := fun other node => by
      simp only [State.goto, unmoved, same]
      exact tracked.drm_edge other node
    owning := by
      simp only [State.goto, unmoved]
      exact tracked.owning
    acyclic := tracked.acyclic.mono fun a b => (same a b).mp
    unvisited := tracked.unvisited
    waiting_live := by
      simp only [State.goto, unmoved]
      exact tracked.waiting_live
    held_live := tracked.held_live
    destroying_dead := by
      simp only [State.goto, unmoved]
      exact tracked.destroying_dead }

variable [DecidableEq Drm]

/-- Locking the drm keeps the thread's edge to it, until the edges are swapped. -/
theorem Tracked.acquire (tracked : Tracked st) (blocked : st.place thread = .blocked drm)
    (free : st.objectMut drm = .free) :
    Tracked { st.goto thread (.owning drm) with
      objectMut := Function.update st.objectMut drm (.held thread) } where
  thread_edge other node := by
    -- The thread waited for the drm before it had the lock, and it still counts as waiting.
    refine (tracked.thread_edge other node).trans ?_
    refine exists_congr fun last => and_congr_right fun _ => (waiting_update ?_ other).symm
    rw [blocked]
    simp [Waiting]
  drm_edge other node := by
    refine (tracked.drm_edge other node).trans ?_
    refine exists_congr fun holder => and_congr_right fun _ => ?_
    simp only [State.goto]
    by_cases same : other = drm
    · -- The drm was free, and now its holder has not swapped the edges yet.
      subst same
      rw [free, Function.update_self]
      constructor
      · intro edge
        have impossible := edge.1
        cases impossible
      · intro both
        obtain ⟨holds, away⟩ := both
        rw [Mutex.held.inj holds, Function.update_self] at away
        exact absurd rfl away
    · rw [Function.update_of_ne same]
      have old : st.place thread ≠ .owning other := by
        rw [blocked]
        nofun
      have new : Place.owning drm ≠ .owning other := by simpa using Ne.symm same
      rw [ne_eq, ne_eq, owning_update old new]
  owning other last owns := by
    simp only [State.goto] at owns ⊢
    by_cases same : other = thread
    · subst same
      rw [Function.update_self] at owns
      rw [Place.owning.inj owns, Function.update_self]
    · rw [Function.update_of_ne same] at owns
      have holds := tracked.owning other last owns
      -- Another drm is held by its thread, so it is not the one that was free.
      have different : last ≠ drm := by
        intro same
        subst same
        rw [free] at holds
        cases holds
      rw [Function.update_of_ne different, holds]
  acyclic := tracked.acyclic
  unvisited := tracked.unvisited
  waiting_live other last waiting := by
    refine tracked.waiting_live other last ((waiting_update ?_ other).mp waiting)
    rw [blocked]
    simp [Waiting]
  held_live other holder holds := by
    simp only [Function.update_apply] at holds
    split at holds
    · rename_i same
      exact same ▸ tracked.waiting_live thread drm (.inl blocked)
    · exact tracked.held_live other holder holds
  destroying_dead other last destroying := by
    obtain ⟨_, before⟩ := place_update destroying nofun
    exact tracked.destroying_dead other last before

/-- Swapping the edges turns the thread's edge to the drm around. -/
theorem Tracked.own (tracked : Tracked st) (owns : st.place thread = .owning drm) :
    Tracked { st.goto thread .outside with graph := drmOwn st.graph thread drm } where
  thread_edge other node := by
    simp only [drmOwn, DirectedGraph.addEdge_edge, DirectedGraph.removeEdge_edge, State.goto,
      tracked.thread_edge other node]
    -- The thread has no edge any more, and the others keep theirs.
    by_cases same : other = thread
    · subst same
      rw [Function.update_self, owns]
      simp [Waiting]
    · rw [Function.update_of_ne same]
      simp [same]
  drm_edge other node := by
    simp only [drmOwn, DirectedGraph.addEdge_edge, DirectedGraph.removeEdge_edge, State.goto,
      tracked.drm_edge other node]
    have holds := tracked.owning thread drm owns
    by_cases same : other = drm
    · -- The thread held the drm without an edge, and now it has one.
      subst same
      rw [holds]
      constructor
      · intro edge
        rcases edge with ⟨_, rfl⟩ | ⟨⟨holder, rfl, also, away⟩, _⟩
        · exact ⟨thread, rfl, rfl, by simp⟩
        · rw [← Mutex.held.inj also] at away
          exact absurd owns away
      · -- The only holder is the thread itself.
        intro wanted
        obtain ⟨holder, rfl, also, _⟩ := wanted
        rw [Mutex.held.inj also]
        exact .inl ⟨rfl, rfl⟩
    · have old : st.place thread ≠ .owning other := by
        rw [owns]
        simpa using Ne.symm same
      have new : Place.outside ≠ .owning other := by simp
      simp [same, owning_update old new]
  owning other last now := by
    obtain ⟨_, before⟩ := place_update now (by simp)
    exact tracked.owning other last before
  acyclic := by
    -- Without its edge to the drm, the thread has no edge left.
    have fewer : Acyclic (st.graph.removeEdge (.thread thread) (.drm drm)).Edge :=
      tracked.acyclic.mono fun a b edge => (DirectedGraph.removeEdge_edge.mp edge).1
    refine fewer.add_of_sink (fun a b edge => (DirectedGraph.addEdge_edge.mp edge).symm)
      (fun node edge => ?_) (by simp)
    obtain ⟨old, away⟩ := DirectedGraph.removeEdge_edge.mp edge
    obtain ⟨last, rfl, waiting⟩ := (tracked.thread_edge thread node).mp old
    exact away ⟨rfl, by rw [Waiting.unique (.inr owns) waiting]⟩
  unvisited := tracked.unvisited
  waiting_live other last waiting := by
    simp only [State.goto, Function.update_apply] at waiting
    split at waiting
    · exact absurd waiting not_waiting_outside
    · exact tracked.waiting_live other last waiting
  held_live := tracked.held_live
  destroying_dead other last destroying := by
    obtain ⟨_, before⟩ := place_update destroying (by simp)
    exact tracked.destroying_dead other last before

/-- Posting a drm takes away its edge before anyone else can lock it. -/
theorem Tracked.post (tracked : Tracked st) (outside : st.place thread = .outside)
    (edge : st.graph.Edge (.drm drm) (.thread thread)) :
    Tracked { st with
      graph := st.graph.removeEdge (.drm drm) (.thread thread)
      objectMut := Function.update st.objectMut drm .free } := by
  -- The edge says that the thread holds the drm.
  obtain ⟨holder, same, holds, _⟩ := (tracked.drm_edge _ _).mp edge
  obtain rfl := Resource.thread.inj same
  exact {
    thread_edge := fun other node => by
      simp [tracked.thread_edge other node]
    drm_edge := fun other node => by
      simp only [DirectedGraph.removeEdge_edge, tracked.drm_edge other node]
      -- The drm is free and has no edge, and the others keep theirs.
      by_cases same : other = drm
      · subst same
        rw [holds, Function.update_self]
        constructor
        · intro both
          obtain ⟨⟨holder, rfl, also, _⟩, away⟩ := both
          exact absurd ⟨rfl, by rw [Mutex.held.inj also]⟩ away
        · intro edge
          obtain ⟨_, _, impossible, _⟩ := edge
          cases impossible
      · rw [Function.update_of_ne same]
        simp [same]
    owning := fun other last owns => by
      have also := tracked.owning other last owns
      -- A thread that has just locked a drm is another one than the poster.
      have different : last ≠ drm := by
        intro same
        subst same
        rw [holds] at also
        rw [← Mutex.held.inj also, outside] at owns
        cases owns
      exact (Function.update_of_ne different _ _).trans also
    acyclic := tracked.acyclic.mono fun a b old => (DirectedGraph.removeEdge_edge.mp old).1
    unvisited := tracked.unvisited
    waiting_live := tracked.waiting_live
    held_live := fun other holder also => by
      simp only [Function.update_apply] at also
      split at also
      · cases also
      · exact tracked.held_live other holder also
    destroying_dead := tracked.destroying_dead }

/-- Destroying a drm that nobody uses takes no edge away. -/
theorem Tracked.destroy (tracked : Tracked st) (outside : st.place thread = .outside)
    (free : st.objectMut drm = .free)
    (unused : ∀ other, st.place other ≠ .blocked drm ∧ st.place other ≠ .owning drm) :
    Tracked { st.goto thread (.destroying drm) with
      graph := st.graph.removeVertex (.drm drm)
      live := fun other => other ≠ drm ∧ st.live other } where
  thread_edge other node := by
    -- The thread was outside and is in `drm_destroy`: at neither place does it wait.
    have idle (last : Drm) : Waiting (Function.update st.place thread (.destroying drm) other) last ↔
        Waiting (st.place other) last := by
      refine waiting_update ?_ other
      rw [outside]
      simp
    simp only [DirectedGraph.removeVertex_edge, State.goto, idle, tracked.thread_edge other node]
    constructor
    · exact And.left
    · -- Nobody waits for the drm, so no edge to it goes away.
      intro blocked
      obtain ⟨last, rfl, waiting⟩ := blocked
      refine ⟨⟨last, rfl, waiting⟩, by simp, ?_⟩
      intro same
      rw [Resource.drm.inj same] at waiting
      exact waiting.elim (unused other).1 (unused other).2
  drm_edge other node := by
    have old : st.place thread ≠ .owning other := by
      rw [outside]
      simp
    have new : Place.destroying drm ≠ .owning other := by simp
    have moved (holder : Thread) := owning_update old new holder
    simp only [DirectedGraph.removeVertex_edge, State.goto, ne_eq, moved, tracked.drm_edge other node]
    constructor
    · exact And.left
    · -- Nobody holds the drm, so no edge of it goes away.
      intro edge
      obtain ⟨holder, rfl, holds, away⟩ := edge
      refine ⟨⟨holder, rfl, holds, away⟩, ?_, by simp⟩
      intro same
      rw [Resource.drm.inj same, free] at holds
      cases holds
  owning other last owns := by
    obtain ⟨_, before⟩ := place_update owns (by simp)
    exact tracked.owning other last before
  acyclic := tracked.acyclic.mono fun a b old => (DirectedGraph.removeVertex_edge.mp old).1
  unvisited := tracked.unvisited
  waiting_live other last waiting := by
    simp only [State.goto, Function.update_apply] at waiting
    split at waiting
    · exact absurd waiting not_waiting_destroying
    · refine ⟨?_, tracked.waiting_live other last waiting⟩
      intro same
      subst same
      exact waiting.elim (unused other).1 (unused other).2
  held_live other holder holds := by
    refine ⟨?_, tracked.held_live other holder holds⟩
    intro same
    subst same
    cases free.symm.trans holds
  destroying_dead other last destroying := by
    simp only [State.goto, Function.update_apply] at destroying
    -- The thread destroys a drm that is not live any more.
    split at destroying
    · exact fun alive => alive.1 (Place.destroying.inj destroying).symm
    · exact fun alive => tracked.destroying_dead other last destroying alive.2

/-- The end of `drm_destroy` destroys a mutex that nobody holds. -/
theorem Tracked.dispose (tracked : Tracked st) (destroying : st.place thread = .destroying drm) :
    Tracked { st.goto thread .outside with
      libraryMut := .destroyed
      objectMut := Function.update st.objectMut drm .destroyed } := by
  -- The drm is not live, so nobody holds its mutex.
  have mutex (other : Drm) (holder : Thread) :
      Function.update st.objectMut drm .destroyed other = .held holder ↔
        st.objectMut other = .held holder := by
    rw [Function.update_apply]
    split
    · rename_i same
      subst same
      refine ⟨nofun, fun holds => ?_⟩
      exact absurd (tracked.held_live other holder holds)
        (tracked.destroying_dead thread other destroying)
    · exact Iff.rfl
  -- The thread comes from `drm_destroy`, so it was not between its lock and its swap.
  have moved (last : Drm) (holder : Thread) :
      Function.update st.place thread .outside holder = .owning last ↔
        st.place holder = .owning last := by
    have old : st.place thread ≠ .owning last := by
      rw [destroying]
      nofun
    have new : Place.outside ≠ .owning last := nofun
    exact owning_update old new holder
  have idle (other : Thread) (last : Drm) :
      Waiting (Function.update st.place thread .outside other) last ↔
        Waiting (st.place other) last := by
    refine waiting_update ?_ other
    rw [destroying]
    simp
  exact {
    thread_edge := fun other node => by
      simp only [State.goto, idle, tracked.thread_edge other node]
    drm_edge := fun other node => by
      simp only [State.goto, ne_eq, moved, mutex, tracked.drm_edge other node]
    owning := fun other last owns =>
      (mutex last other).mpr (tracked.owning other last ((moved last other).mp owns))
    acyclic := tracked.acyclic
    unvisited := tracked.unvisited
    waiting_live := fun other last waiting =>
      tracked.waiting_live other last ((idle other last).mp waiting)
    held_live := fun other holder holds =>
      tracked.held_live other holder ((mutex other holder).mp holds)
    destroying_dead := fun other last also => by
      obtain ⟨_, before⟩ := place_update also nofun
      exact tracked.destroying_dead other last before }

/-- A new drm is waited for by nobody. -/
theorem Tracked.init (tracked : Tracked st) (dead : ¬ st.live drm)
    (unused : ∀ other, st.place other ≠ .destroying drm) :
    Tracked { st with
      graph := st.graph.addVertex (.drm drm)
      objectMut := Function.update st.objectMut drm .free
      live := fun other => other = drm ∨ st.live other } := by
  -- The drm was not live, so nobody held its mutex.
  have mutex (other : Drm) (holder : Thread) :
      Function.update st.objectMut drm .free other = .held holder ↔
        st.objectMut other = .held holder := by
    rw [Function.update_apply]
    split
    · rename_i same
      subst same
      exact ⟨nofun, fun holds => absurd (tracked.held_live other holder holds) dead⟩
    · exact Iff.rfl
  exact {
    thread_edge := tracked.thread_edge
    drm_edge := fun other node => by
      simp only [mutex]
      exact tracked.drm_edge other node
    owning := fun thread other owns => (mutex other thread).mpr (tracked.owning thread other owns)
    acyclic := tracked.acyclic
    unvisited := tracked.unvisited
    waiting_live := fun thread other waiting => .inr (tracked.waiting_live thread other waiting)
    held_live := fun other thread holds =>
      .inr (tracked.held_live other thread ((mutex other thread).mp holds))
    destroying_dead := fun thread other destroying => by
      -- The new drm is not being destroyed, and the others are as live as before.
      intro kept
      rcases kept with rfl | alive
      · exact unused thread destroying
      · exact tracked.destroying_dead thread other destroying alive }

/-- Every step of every thread leaves the graph tracked. -/
theorem Tracked.step (tracked : Tracked st) (step : Step st action st') : Tracked st' := by
  cases step with
  | init _ dead unused => exact tracked.init dead unused
  | initFailed => exact tracked
  | @wait thread drm fuel graph visited goesOn outside alive done =>
    -- The cycle check starts without a set of visited vertices.
    rw [tracked.unvisited] at done
    have free (node : Resource Thread Drm) : ¬ st.graph.Edge (.thread thread) node :=
      tracked.no_edge outside
    obtain ⟨rfl, ⟨rfl, same⟩ | ⟨rfl, edges, open_end⟩⟩ :=
      drmWait_cases tracked.outUnique free done
    · have refused := tracked.refused outside same
      rw [← tracked.unvisited]
      exact refused
    · have waits := tracked.wait outside alive edges open_end
      rw [← tracked.unvisited]
      exact waits
  | acquire blocked free => exact tracked.acquire blocked free
  | own owns => exact tracked.own owns
  | @post thread drm outside alive =>
    -- Posting a drm that the thread does not own does nothing.
    split
    · rename_i posts
      exact tracked.post outside posts.2.2
    · exact tracked
  | destroy outside _ free unused => exact tracked.destroy outside free unused
  | dispose destroying => exact tracked.dispose destroying

variable {trace : List (Transition (State Thread Drm) (Action Thread Drm))}
  {final : State Thread Drm}

/-- In every run, the graph is tracked. -/
theorem tracked_of_run (run : Run Step start trace final) : Tracked final :=
  run.invariant .start fun _ _ _ tracked step => tracked.step step

/--
No deadlock ever forms: in every run, no vertex has two edges out of it, a drm points only to the
thread that holds it, the graph has no cycle, and no threads are blocked in a circle. The cycle
check always returns.
-/
theorem never_deadlocked (run : Run Step (start : State Thread Drm) trace final) :
    OutUnique final.graph.Edge ∧
      (∀ drm node, final.graph.Edge (.drm drm) node →
        ∃ thread, node = .thread thread ∧ final.objectMut drm = .held thread) ∧
      Acyclic final.graph.Edge ∧ Acyclic (WaitsFor final) ∧
      ∀ thread drm, final.place thread = .outside →
        ∃ fuel, (drmWait final.graph fuel final.visitedVertex thread drm).isSome := by
  have tracked := tracked_of_run run
  refine ⟨tracked.outUnique, ?_, tracked.acyclic, tracked.no_circle, ?_⟩
  · intro drm node edge
    obtain ⟨thread, same, holds, _⟩ := (tracked.drm_edge drm node).mp edge
    exact ⟨thread, same, holds⟩
  · -- The check starts from a graph where no vertex has two edges.
    intro thread drm outside
    rw [tracked.unvisited]
    exact drmWait_returns tracked.outUnique fun node => tracked.no_edge outside

/-- The graph of one thread that waits for one drm. -/
def sampleGraph : Resources Bool Bool where
  vertices := [.thread true, .drm true]
  edges := [(.thread true, .drm true)]
  distinct := by decide

def sampleStart : State Bool Bool := start

def sampleMade : State Bool Bool :=
  { sampleStart with
    graph := sampleStart.graph.addVertex (.drm true)
    objectMut := Function.update sampleStart.objectMut true .free
    live := fun other => other = true ∨ sampleStart.live other }

def sampleBlocked : State Bool Bool :=
  { sampleMade.goto true (.blocked true) with graph := sampleGraph, visitedVertex := none }

def sampleOwning : State Bool Bool :=
  { sampleBlocked.goto true (.owning true) with
    objectMut := Function.update sampleBlocked.objectMut true (.held true) }

/-- One thread makes a drm, waits for it, and locks it. -/
theorem sample_run : Run Step start
    [⟨sampleStart, ⟨true, .init true⟩, sampleMade⟩, ⟨sampleMade, ⟨true, .wait true⟩, sampleBlocked⟩,
      ⟨sampleBlocked, ⟨true, .acquire true⟩, sampleOwning⟩] sampleOwning := by
  have init : Step sampleStart ⟨true, .init true⟩ sampleMade := .init rfl id fun _ => nofun
  -- The cycle check goes from the thread to the drm, which has no edge.
  have checked : drmWait sampleMade.graph 3 none true true = some (sampleGraph, none, true) := rfl
  have wait : Step sampleMade ⟨true, .wait true⟩ sampleBlocked := .wait rfl (Or.inl rfl) checked
  have acquire : Step sampleBlocked ⟨true, .acquire true⟩ sampleOwning := .acquire rfl rfl
  exact ((Run.start.next init).next wait).next acquire

/-- In the window before the edges are swapped, nobody is blocked in a circle. -/
theorem never_deadlocked_sample :
    Acyclic sampleOwning.graph.Edge ∧ Acyclic (WaitsFor sampleOwning) := by
  obtain ⟨_, _, graph, circle, _⟩ := never_deadlocked sample_run
  exact ⟨graph, circle⟩

end SystemProgramming.Drm
