import SystemProgramming.Drm.Deadlock

/-! Which calls of `drm_wait` are refused: those whose wait would close a cycle, and no others. -/

namespace SystemProgramming.Drm

open Foundations Relation

section Check

variable {Vertex : Type*} {g : DirectedGraph Vertex} {fuel : Nat} {vertex : Vertex}
  {visited after : Option (List Vertex)}

/-- The loop finds a cycle at a neighbor, with the set as it was, or destroyed by another call. -/
theorem visitAll_true
    {check : Vertex → Option (List Vertex) → Option (Bool × Option (List Vertex))}
    {list : List Vertex}
    (destroys : ∀ next visited after, check next visited = some (false, after) → after = none)
    (found : visitAll check list visited = some (true, after)) :
    ∃ next ∈ list, ∃ before, (before = visited ∨ before = none) ∧
      check next before = some (true, after) := by
  induction list generalizing visited with
  | nil => cases found
  | cons next rest ih =>
    rw [visitAll] at found
    split at found
    · rename_i inner
      cases found
      exact ⟨next, List.mem_cons_self, visited, .inl rfl, inner⟩
    · -- The check of this neighbor has destroyed the set, so the next one starts without.
      rename_i inner
      obtain ⟨later, member, before, same, cycle⟩ := ih found
      rw [destroys next _ _ inner, or_self] at same
      exact ⟨later, List.mem_cons_of_mem _ member, before, .inr same, cycle⟩
    · cases found

variable [DecidableEq Vertex]

/-- A check that finds a cycle can reach a visited vertex, or a cycle. -/
theorem hasCycle_true (done : hasCycle g fuel vertex visited = some (true, after)) :
    ∃ other, ReflTransGen g.Edge vertex other ∧
      (other ∈ visited.getD [] ∨ TransGen g.Edge other other) := by
  -- The induction is on the depth of the recursion.
  induction fuel generalizing vertex visited after with
  | zero => cases done
  | succ fuel ih =>
    rw [hasCycle] at done
    split at done
    · rename_i again
      exact ⟨vertex, .refl, .inl again⟩
    · split at done
      · rename_i found
        cases done
        obtain ⟨next, member, before, same, inner⟩ :=
          visitAll_true (fun _ _ _ => hasCycle_unvisited) found
        have edge : g.Edge vertex next := DirectedGraph.mem_neighbors.mp member
        obtain ⟨other, way, met | cycle⟩ := ih inner
        · -- The vertex that is met again is this one, or one that was visited before it.
          have known : other = vertex ∨ other ∈ visited.getD [] := by
            rcases same with rfl | rfl
            · exact List.mem_cons.mp met
            · cases met
          rcases known with rfl | old
          · exact ⟨other, .refl, .inr (.head' edge way)⟩
          · exact ⟨other, .head edge way, .inl old⟩
        · exact ⟨other, .head edge way, .inr cycle⟩
      · cases done
      · cases done

/-- Without a visited vertex at first, the check finds only cycles. -/
theorem cycle_of_hasCycle (done : hasCycle g fuel vertex none = some (true, after)) :
    ∃ other, ReflTransGen g.Edge vertex other ∧ TransGen g.Edge other other := by
  obtain ⟨other, way, impossible | cycle⟩ := hasCycle_true done
  · cases impossible
  · exact ⟨other, way, cycle⟩

end Check

variable {Thread Drm : Type*} {thread : Thread} {drm : Drm}

/-- The thread owns the drm, or the edges from the drm lead to it. -/
def MustRefuse (g : Resources Thread Drm) (thread : Thread) (drm : Drm) : Prop :=
  g.Edge (.drm drm) (.thread thread) ∨ TransGen g.Edge (.drm drm) (.thread thread)

/-- In both cases there is a way from the drm to the thread. -/
theorem mustRefuse_iff {g : Resources Thread Drm} :
    MustRefuse g thread drm ↔ ReflTransGen g.Edge (.drm drm) (.thread thread) := by
  constructor
  · rintro (edge | way)
    · exact .single edge
    · exact way.to_reflTransGen
  · intro way
    -- The drm is no thread, so the way has an edge.
    rcases reflTransGen_iff_eq_or_transGen.mp way with same | way
    · cases same
    · exact .inr way

variable [DecidableEq Thread] [DecidableEq Drm]

/-- On a graph without cycles, `drm_wait` goes on only if the drm does not lead back to the thread. -/
theorem drmWait_goesOn_iff {g after : Resources Thread Drm} {fuel : Nat}
    {visited : Option (List (Resource Thread Drm))} {goesOn : Bool} (single : OutUnique g.Edge)
    (acyclic : Acyclic g.Edge) (free : ∀ node, ¬ g.Edge (.thread thread) node)
    (done : drmWait g fuel none thread drm = some (after, visited, goesOn)) :
    goesOn = false ↔ MustRefuse g thread drm := by
  rw [mustRefuse_iff]
  have edges (a b) : ((entered g thread).addEdge (.thread thread) (.drm drm)).Edge a b ↔
      a = .thread thread ∧ b = .drm drm ∨ g.Edge a b := by
    rw [DirectedGraph.addEdge_edge, entered_edge]
  rw [drmWait, ← entered] at done
  dsimp only at done
  split at done
  · -- The thread owns the drm already.
    rename_i owned
    cases done
    exact iff_of_true rfl (.single (entered_edge.mp owned.2))
  · split at done
    · -- A way from the drm to the thread would close a cycle with the new edge.
      rename_i checked
      cases done
      refine iff_of_false (by decide) fun way => ?_
      refine no_cycle_of_hasCycle (single.add free edges) checked ?_
      have old := ReflTransGen.mono (fun a b edge => (edges a b).mpr (.inr edge)) _ _ way
      exact .head' ((edges _ _).mpr (.inl ⟨rfl, rfl⟩)) old
    · -- The cycle that was found uses the new edge, and leads back without it.
      rename_i checked
      cases done
      refine iff_of_true rfl ?_
      obtain ⟨other, _, cycle⟩ := cycle_of_hasCycle checked
      have new := Acyclic.way_of_add (fun a b => Or.symm ∘ (edges a b).mp) cycle
      rcases new with old | ⟨before, behind⟩
      · exact absurd old (acyclic other)
      · exact behind.trans before
    · cases done

variable {trace : List (Transition (State Thread Drm) (Action Thread Drm))}
  {final : State Thread Drm}

/--
In every run, a thread that is in no call can call `drm_wait` for a registered drm, and the check
returns: it refuses exactly if the thread owns the drm or the edges lead from the drm back to the
thread, and then no edge has changed; otherwise the thread's edge to the drm has been added, and the
thread is about to lock the drm.
-/
theorem drmWait_refuses_iff (run : Run Step (start : State Thread Drm) trace final)
    (outside : final.place thread = .outside) (alive : final.live drm) :
    (∃ after, Step final ⟨thread, .wait drm⟩ after) ∧
      ∀ after, Step final ⟨thread, .wait drm⟩ after →
        MustRefuse final.graph thread drm ∧ after.place thread = .outside ∧
            (∀ a b, after.graph.Edge a b ↔ final.graph.Edge a b) ∨
          ¬ MustRefuse final.graph thread drm ∧ after.place thread = .blocked drm ∧
            ∀ a b, after.graph.Edge a b ↔
              a = .thread thread ∧ b = .drm drm ∨ final.graph.Edge a b := by
  have tracked := tracked_of_run run
  have free (node : Resource Thread Drm) : ¬ final.graph.Edge (.thread thread) node :=
    tracked.no_edge outside
  constructor
  · -- No vertex has two edges, so the check returns.
    obtain ⟨fuel, returns⟩ := @drmWait_returns _ _ _ _ thread drm _ tracked.outUnique free
    obtain ⟨⟨graph, visited, goesOn⟩, done⟩ := Option.isSome_iff_exists.mp returns
    rw [← tracked.unvisited] at done
    exact ⟨_, .wait outside alive done⟩
  · intro after step
    cases step with
    | wait _ _ done =>
      rw [tracked.unvisited] at done
      have refuses := drmWait_goesOn_iff tracked.outUnique tracked.acyclic free done
      simp only [State.goto, Function.update_self]
      obtain ⟨_, ⟨rfl, same⟩ | ⟨rfl, edges, _⟩⟩ := drmWait_cases tracked.outUnique free done
      · exact .inl ⟨refuses.mp rfl, rfl, same⟩
      · exact .inr ⟨fun must => absurd (refuses.mpr must) (by decide), rfl, edges⟩

/-- While one thread is about to own the drm, another one may wait for it. -/
theorem drmWait_refuses_iff_sample :
    (∃ after, Step sampleOwning ⟨false, .wait true⟩ after) ∧
      ∀ after, Step sampleOwning ⟨false, .wait true⟩ after →
        MustRefuse sampleOwning.graph false true ∧ after.place false = .outside ∧
            (∀ a b, after.graph.Edge a b ↔ sampleOwning.graph.Edge a b) ∨
          ¬ MustRefuse sampleOwning.graph false true ∧ after.place false = .blocked true ∧
            ∀ a b, after.graph.Edge a b ↔
              a = .thread false ∧ b = .drm true ∨ sampleOwning.graph.Edge a b :=
  drmWait_refuses_iff sample_run rfl (Or.inl rfl)

end SystemProgramming.Drm
