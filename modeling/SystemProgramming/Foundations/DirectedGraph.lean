import Mathlib.Data.List.Nodup
import Mathlib.Data.List.Dedup
import Mathlib.Logic.Relation

/-! Finite directed graphs, and how adding an edge can close a cycle. -/

namespace Foundations

/-- No vertex can be reached from itself in one or more steps. -/
def Acyclic {Vertex : Type*} (edge : Vertex → Vertex → Prop) : Prop :=
  ∀ vertex, ¬ Relation.TransGen edge vertex vertex

namespace Acyclic

variable {Vertex : Type*} {edge more : Vertex → Vertex → Prop} {source target : Vertex}

/-- A graph with fewer edges has no more cycles. -/
theorem mono (acyclic : Acyclic edge) (fewer : ∀ a b, more a b → edge a b) : Acyclic more :=
  fun vertex cycle => acyclic vertex (Relation.TransGen.mono fewer vertex vertex cycle)

/-- With one more edge, a way is an old one, or it leads over the new edge. -/
theorem way_of_add (added : ∀ a b, more a b → edge a b ∨ a = source ∧ b = target) {a b : Vertex}
    (way : Relation.TransGen more a b) :
    Relation.TransGen edge a b ∨
      Relation.ReflTransGen edge a source ∧ Relation.ReflTransGen edge target b := by
  -- After the last visit to the new edge, only old edges follow.
  induction way with
  | single step =>
    rcases added _ _ step with old | ⟨rfl, rfl⟩
    · exact .inl (.single old)
    · exact .inr ⟨.refl, .refl⟩
  | tail _ step ih =>
    rcases added _ _ step with old | ⟨rfl, rfl⟩
    · rcases ih with before | ⟨before, after⟩
      · exact .inl (before.tail old)
      · exact .inr ⟨before, after.tail old⟩
    · rcases ih with before | ⟨before, _⟩
      · exact .inr ⟨before.to_reflTransGen, .refl⟩
      · exact .inr ⟨before, .refl⟩

/-- A new edge closes a cycle only if its source can be reached from its target. -/
theorem add (acyclic : Acyclic edge)
    (added : ∀ a b, more a b → edge a b ∨ a = source ∧ b = target)
    (apart : ¬ Relation.ReflTransGen edge target source) : Acyclic more := by
  intro vertex cycle
  rcases way_of_add added cycle with old | ⟨before, after⟩
  · exact acyclic vertex old
  · exact apart (after.trans before)

/-- An edge into a vertex without edges out of it closes no cycle. -/
theorem add_of_sink (acyclic : Acyclic edge)
    (added : ∀ a b, more a b → edge a b ∨ a = source ∧ b = target)
    (sink : ∀ b, ¬ edge target b) (different : target ≠ source) : Acyclic more := by
  refine acyclic.add added fun way => ?_
  rcases Relation.ReflTransGen.cases_head way with same | ⟨_, step, _⟩
  · exact different same
  · exact sink _ step

/-- Edges that lead to a smaller rank close no cycle. -/
theorem of_rank (rank : Vertex → Nat) (down : ∀ a b, edge a b → rank b < rank a) :
    Acyclic edge := by
  intro vertex cycle
  -- A way of any length leads down, so that it does not come back.
  have lower {a b : Vertex} (way : Relation.TransGen edge a b) : rank b < rank a := by
    induction way with
    | single step => exact down _ _ step
    | tail _ step ih => exact Nat.lt_trans (down _ _ step) ih
  exact Nat.lt_irrefl _ (lower cycle)

end Acyclic

/-- No vertex has more than one edge out of it. -/
def OutUnique {Vertex : Type*} (edge : Vertex → Vertex → Prop) : Prop :=
  ∀ vertex first second, edge vertex first → edge vertex second → first = second

variable {Vertex : Type*} {edge more : Vertex → Vertex → Prop} {source target : Vertex} in
/-- An edge out of a vertex that had none leaves at most one edge out of each. -/
theorem OutUnique.add (single : OutUnique edge) (free : ∀ node, ¬ edge source node)
    (added : ∀ a b, more a b ↔ a = source ∧ b = target ∨ edge a b) : OutUnique more := by
  intro vertex first second one two
  rcases (added _ _).mp one with ⟨rfl, rfl⟩ | old
  · rcases (added _ _).mp two with ⟨_, rfl⟩ | also
    · rfl
    · exact absurd also (free second)
  · rcases (added _ _).mp two with ⟨rfl, rfl⟩ | also
    · exact absurd old (free first)
    · exact single vertex first second old also

/-- A finite directed graph, without parallel edges. -/
structure DirectedGraph (Vertex : Type*) where
  vertices : List Vertex
  edges : List (Vertex × Vertex)
  distinct : edges.Nodup

namespace DirectedGraph

variable {Vertex : Type*} {graph : DirectedGraph Vertex} {a b vertex other : Vertex}

/-- The graph without vertices. -/
def empty : DirectedGraph Vertex := ⟨[], [], List.nodup_nil⟩

/-- There is an edge from one vertex to another. -/
def Edge (graph : DirectedGraph Vertex) (a b : Vertex) : Prop := (a, b) ∈ graph.edges

variable [DecidableEq Vertex]

instance decidableEdge (graph : DirectedGraph Vertex) (a b : Vertex) : Decidable (graph.Edge a b) :=
  inferInstanceAs (Decidable (_ ∈ _))

/-- A vertex is added once. -/
def addVertex (graph : DirectedGraph Vertex) (vertex : Vertex) : DirectedGraph Vertex :=
  { graph with vertices := graph.vertices.insert vertex }

/-- A vertex is removed with the edges at it. -/
def removeVertex (graph : DirectedGraph Vertex) (vertex : Vertex) : DirectedGraph Vertex where
  vertices := graph.vertices.filter (· ≠ vertex)
  edges := graph.edges.filter fun edge => edge.1 ≠ vertex ∧ edge.2 ≠ vertex
  distinct := graph.distinct.filter _

/-- An edge is added once. -/
def addEdge (graph : DirectedGraph Vertex) (a b : Vertex) : DirectedGraph Vertex :=
  { graph with edges := graph.edges.insert (a, b), distinct := graph.distinct.insert }

/-- An edge is removed. -/
def removeEdge (graph : DirectedGraph Vertex) (a b : Vertex) : DirectedGraph Vertex :=
  { graph with edges := graph.edges.filter (· ≠ (a, b)), distinct := graph.distinct.filter _ }

/-- The targets of the edges out of a vertex. -/
def neighbors (graph : DirectedGraph Vertex) (vertex : Vertex) : List Vertex :=
  (graph.edges.filter fun edge => edge.1 = vertex).map Prod.snd

@[simp] theorem addVertex_edge : (graph.addVertex vertex).Edge a b ↔ graph.Edge a b := Iff.rfl

@[simp] theorem removeVertex_edge : (graph.removeVertex vertex).Edge a b ↔
    graph.Edge a b ∧ a ≠ vertex ∧ b ≠ vertex := by
  simp [Edge, removeVertex]

@[simp] theorem addEdge_edge {source target : Vertex} : (graph.addEdge source target).Edge a b ↔
    a = source ∧ b = target ∨ graph.Edge a b := by
  simp [Edge, addEdge]

@[simp] theorem removeEdge_edge {source target : Vertex} :
    (graph.removeEdge source target).Edge a b ↔ graph.Edge a b ∧ ¬ (a = source ∧ b = target) := by
  simp only [Edge, removeEdge, List.mem_filter, decide_eq_true_eq, ne_eq, Prod.mk.injEq]

@[simp] theorem mem_neighbors : other ∈ graph.neighbors vertex ↔ graph.Edge vertex other := by
  simp [Edge, neighbors]

/-- A vertex with at most one edge out of it has at most one neighbor in the list. -/
theorem neighbors_cases (single : ∀ first second, graph.Edge vertex first →
    graph.Edge vertex second → first = second) :
    graph.neighbors vertex = [] ∨ ∃ next, graph.neighbors vertex = [next] := by
  -- The list has no repetitions, since the edges have none.
  have distinct : (graph.neighbors vertex).Nodup := by
    refine (graph.distinct.filter _).map_on ?_
    intro mine inside its also same
    obtain ⟨first, one⟩ := mine
    obtain ⟨second, two⟩ := its
    simp only [List.mem_filter, decide_eq_true_eq] at inside also
    rw [inside.2, also.2, show one = two from same]
  cases listed : graph.neighbors vertex with
  | nil => exact .inl rfl
  | cons first rest =>
    refine .inr ⟨first, ?_⟩
    rw [listed] at distinct
    have alone : rest = [] := by
      refine List.eq_nil_iff_forall_not_mem.mpr fun second member => ?_
      have one : graph.Edge vertex first := mem_neighbors.mp (by simp [listed])
      have two : graph.Edge vertex second := mem_neighbors.mp (by simp [listed, member])
      exact (List.nodup_cons.mp distinct).1 (single first second one two ▸ member)
    rw [alone]

end DirectedGraph

end Foundations
