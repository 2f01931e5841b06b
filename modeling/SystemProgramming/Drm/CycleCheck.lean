import SystemProgramming.Drm.Library
import Mathlib.Data.List.Perm.Subperm

/-! The cycle check of `drm_wait`: it returns, and a wait that it lets through closes no cycle. -/

namespace SystemProgramming.Drm

open Foundations Relation

variable {Vertex : Type*} [DecidableEq Vertex] {g : DirectedGraph Vertex} {fuel : Nat}
  {vertex : Vertex} {visited after : Option (List Vertex)} {flag : Bool}

/-- After the cycle check, whatever it found, there is no set of visited vertices. -/
theorem hasCycle_unvisited (done : hasCycle g fuel vertex visited = some (flag, after)) :
    after = none := by
  -- Only the call that finds the cycle decides, and it has destroyed the set.
  induction fuel generalizing vertex visited flag after with
  | zero => cases done
  | succ fuel ih =>
    -- The loop passes on what the call for one neighbor has left.
    have passed {list : List Vertex} {visited : Option (List Vertex)}
        (found : visitAll (hasCycle g fuel) list visited = some (true, after)) : after = none := by
      induction list generalizing visited with
      | nil => cases found
      | cons next rest more =>
        rw [visitAll] at found
        split at found
        · rename_i inner
          cases found
          exact ih inner
        · exact more found
        · cases found
    rw [hasCycle] at done
    split at done
    · cases done
      rfl
    · split at done
      · rename_i found
        cases done
        exact passed found
      · cases done
        rfl
      · cases done

/-- A check that finds no cycle has seen a new vertex, and found no cycle behind it. -/
theorem hasCycle_false (single : OutUnique g.Edge)
    (done : hasCycle g fuel vertex visited = some (false, after)) :
    vertex ∉ visited.getD [] ∧ ∀ next, g.Edge vertex next →
      ∃ fuel after, hasCycle g fuel next (some (vertex :: visited.getD [])) =
        some (false, after) := by
  cases fuel with
  | zero => cases done
  | succ fuel =>
    rw [hasCycle] at done
    -- A vertex that was visited before would have been a cycle.
    split at done
    · cases done
    · rename_i fresh
      refine ⟨fresh, fun next edge => ?_⟩
      -- The one neighbor is the vertex that the loop visits.
      have only : g.neighbors vertex = [next] := by
        have listed := DirectedGraph.mem_neighbors.mpr edge
        rcases DirectedGraph.neighbors_cases (single vertex) with empty | ⟨other, alone⟩
        · rw [empty] at listed
          cases listed
        · rw [alone] at listed
          rw [alone, List.mem_singleton.mp listed]
      -- So the check of that neighbor has found no cycle either.
      rw [only, visitAll] at done
      split at done
      · cases done
      · rename_i inner
        split at inner
        · cases inner
        · rename_i found
          exact ⟨fuel, _, found⟩
        · cases inner
      · cases done

/-- What was visited is not met again behind a vertex where the check finds no cycle. -/
theorem hasCycle_apart (single : OutUnique g.Edge)
    (done : hasCycle g fuel vertex visited = some (false, after)) {other : Vertex}
    (way : ReflTransGen g.Edge vertex other) : other ∉ visited.getD [] := by
  -- The induction follows the way, and the set of visited vertices grows along it.
  induction way using ReflTransGen.head_induction_on generalizing fuel visited after with
  | refl => exact (hasCycle_false single done).1
  | head step _ ih =>
    obtain ⟨fuel, after, inner⟩ := (hasCycle_false single done).2 _ step
    have apart := ih inner
    -- What was visited before stays in the set of the later calls.
    exact fun member => apart (List.mem_cons_of_mem _ member)

/-- The vertex where the check finds no cycle is on none. -/
theorem no_cycle_of_hasCycle (single : OutUnique g.Edge)
    (done : hasCycle g fuel vertex none = some (false, after)) :
    ¬ TransGen g.Edge vertex vertex := by
  -- A cycle would lead back to the vertex, which the check has visited first.
  intro cycle
  obtain ⟨next, step, way⟩ := TransGen.head'_iff.mp cycle
  obtain ⟨fuel, after, inner⟩ := (hasCycle_false single done).2 _ step
  exact hasCycle_apart single inner way List.mem_cons_self

/-- With enough fuel the check returns, since every visited vertex has an edge of its own. -/
theorem hasCycle_returns (single : OutUnique g.Edge) (distinct : (visited.getD []).Nodup)
    (sources : ∀ other ∈ visited.getD [], other ∈ g.edges.map Prod.fst)
    (enough : g.edges.length + 2 ≤ fuel + (visited.getD []).length) :
    (hasCycle g fuel vertex visited).isSome := by
  -- The fuel goes down by one for each new visited vertex.
  induction fuel generalizing vertex visited with
  | zero =>
    -- So many different vertices cannot all be the source of an edge.
    have few := List.Subperm.length_le (List.subperm_of_subset distinct sources)
    rw [List.length_map] at few
    omega
  | succ fuel ih =>
    rw [hasCycle]
    split
    · rfl
    · rename_i fresh
      -- The loop has nothing to visit, or one neighbor.
      rcases DirectedGraph.neighbors_cases (single vertex) with empty | ⟨next, alone⟩
      · rw [empty, visitAll]
        rfl
      · have edge : (vertex, next) ∈ g.edges := DirectedGraph.mem_neighbors.mp (by simp [alone])
        have inner := @ih next (some (vertex :: visited.getD []))
          (List.nodup_cons.mpr ⟨fresh, distinct⟩)
          (List.forall_mem_cons.mpr ⟨List.mem_map.mpr ⟨_, edge, rfl⟩, sources⟩)
          (by simp only [Option.getD_some, List.length_cons]; omega)
        obtain ⟨⟨flag, after⟩, found⟩ := Option.isSome_iff_exists.mp inner
        rw [alone, visitAll, found]
        cases flag <;> rfl

variable {Thread Drm : Type*} [DecidableEq Thread] [DecidableEq Drm] {thread : Thread} {drm : Drm}

/-- A new vertex brings no edges. -/
@[simp] theorem entered_edge {g : Resources Thread Drm} {a b : Resource Thread Drm} :
    (entered g thread).Edge a b ↔ g.Edge a b := by
  -- The thread is a vertex already, or it is a new one without edges.
  rw [entered]
  split
  · exact Iff.rfl
  · exact DirectedGraph.addVertex_edge

/-- What the first section of `drm_wait` does for a thread without an edge. -/
theorem drmWait_cases {g after : Resources Thread Drm} {fuel : Nat}
    {visited : Option (List (Resource Thread Drm))} {goesOn : Bool} (single : OutUnique g.Edge)
    (free : ∀ node, ¬ g.Edge (.thread thread) node)
    (done : drmWait g fuel none thread drm = some (after, visited, goesOn)) :
    visited = none ∧
      (goesOn = false ∧ (∀ a b, after.Edge a b ↔ g.Edge a b) ∨
        goesOn = true ∧ (∀ a b, after.Edge a b ↔ a = .thread thread ∧ b = .drm drm ∨ g.Edge a b) ∧
          ¬ TransGen after.Edge (.thread thread) (.thread thread)) := by
  rw [drmWait, ← entered] at done
  dsimp only at done
  -- The graph has one more edge when the cycle check looks at it.
  have edges (a b) : ((entered g thread).addEdge (.thread thread) (.drm drm)).Edge a b ↔
      a = .thread thread ∧ b = .drm drm ∨ g.Edge a b := by
    rw [DirectedGraph.addEdge_edge, entered_edge]
  split at done
  · -- The thread owns the drm already.
    cases done
    exact ⟨rfl, .inl ⟨rfl, fun _ _ => entered_edge⟩⟩
  · split at done
    · -- The check has found no cycle through the thread.
      rename_i checked
      cases done
      exact ⟨hasCycle_unvisited checked,
        .inr ⟨rfl, edges, no_cycle_of_hasCycle (single.add free edges) checked⟩⟩
    · -- The new edge closes a cycle and is taken back.
      rename_i checked
      cases done
      refine ⟨hasCycle_unvisited checked, .inl ⟨rfl, fun a b => ?_⟩⟩
      rw [DirectedGraph.removeEdge_edge, edges]
      constructor
      · rintro ⟨new | old, other⟩
        · exact absurd new other
        · exact old
      · intro old
        refine ⟨.inr old, ?_⟩
        rintro ⟨rfl, rfl⟩
        exact free _ old
    · cases done

/-- With enough fuel, the first section of `drm_wait` returns. -/
theorem drmWait_returns {g : Resources Thread Drm} (single : OutUnique g.Edge)
    (free : ∀ node, ¬ g.Edge (.thread thread) node) :
    ∃ fuel, (drmWait g fuel none thread drm).isSome := by
  have edges (a b) : ((entered g thread).addEdge (.thread thread) (.drm drm)).Edge a b ↔
      a = .thread thread ∧ b = .drm drm ∨ g.Edge a b := by
    rw [DirectedGraph.addEdge_edge, entered_edge]
  -- Each edge can be the only one out of one visited vertex.
  have returns := @hasCycle_returns _ _ ((entered g thread).addEdge (.thread thread) (.drm drm))
    _ (.thread thread) none (single.add free edges) List.nodup_nil nofun (Nat.le_refl _)
  obtain ⟨⟨flag, after⟩, found⟩ := Option.isSome_iff_exists.mp returns
  refine ⟨((entered g thread).addEdge (.thread thread) (.drm drm)).edges.length + 2, ?_⟩
  rw [drmWait, ← entered]
  dsimp only
  rw [found]
  split
  · rfl
  · cases flag <;> rfl

end SystemProgramming.Drm
