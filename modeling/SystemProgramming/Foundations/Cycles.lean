import SystemProgramming.Foundations.DirectedGraph
import Mathlib.Order.WellFounded
import Mathlib.Order.RelClasses
import Mathlib.Data.Fintype.Card

/-! Vertices from which a cycle can be reached, and the first neighbors that lead there. -/

namespace Foundations

open Relation

variable {Vertex : Type*} {edge : Vertex → Vertex → Prop} {neighbors : Vertex → List Vertex}
  {a b : Vertex}

/-- A cycle can be reached from the vertex. -/
def ReachesCycle (edge : Vertex → Vertex → Prop) (vertex : Vertex) : Prop :=
  ∃ inside, ReflTransGen edge vertex inside ∧ TransGen edge inside inside

namespace ReachesCycle

/-- A vertex on a cycle reaches one. -/
theorem of_cycle (cycle : TransGen edge a a) : ReachesCycle edge a := ⟨a, .refl, cycle⟩

/-- What a neighbor reaches, the vertex reaches. -/
theorem head (step : edge a b) (reaches : ReachesCycle edge b) : ReachesCycle edge a := by
  obtain ⟨inside, way, cycle⟩ := reaches
  exact ⟨inside, .head step way, cycle⟩

/-- The way to a cycle, or around it, goes over a neighbor that reaches it as well. -/
theorem next (reaches : ReachesCycle edge a) : ∃ b, edge a b ∧ ReachesCycle edge b := by
  obtain ⟨inside, way, cycle⟩ := reaches
  rcases ReflTransGen.cases_head way with rfl | ⟨b, step, rest⟩
  · -- The vertex is on the cycle itself.
    obtain ⟨b, step, back⟩ := TransGen.head'_iff.mp cycle
    exact ⟨b, step, a, back, cycle⟩
  · exact ⟨b, step, inside, rest, cycle⟩

/-- In a finite graph every way ends that starts where no cycle can be reached. -/
theorem wellFounded_of_not [Finite Vertex] (edge : Vertex → Vertex → Prop) :
    WellFounded fun b a => ¬ ReachesCycle edge a ∧ TransGen edge a b := by
  have transitive : IsTrans Vertex fun b a => ¬ ReachesCycle edge a ∧ TransGen edge a b :=
    ⟨fun _ _ _ near far => ⟨far.1, far.2.trans near.2⟩⟩
  have irreflexive : Std.Irrefl fun b a => ¬ ReachesCycle edge a ∧ TransGen edge a b :=
    ⟨fun _ both => both.1 (of_cycle both.2)⟩
  exact Finite.wellFounded_of_trans_of_irrefl _

end ReachesCycle

/-- In a finite graph without cycles, every vertex has a way to one without edges out of it. -/
theorem Acyclic.exists_last [Finite Vertex] (acyclic : Acyclic edge) (a : Vertex) :
    ∃ last, ReflTransGen edge a last ∧ ∀ next, ¬ edge last next := by
  induction a using (ReachesCycle.wellFounded_of_not edge).induction with
  | _ a further =>
    by_cases more : ∃ next, edge a next
    · obtain ⟨next, step⟩ := more
      have free : ¬ ReachesCycle edge a := fun ⟨inside, _, cycle⟩ => acyclic inside cycle
      obtain ⟨last, way, final⟩ := further next ⟨free, .single step⟩
      exact ⟨last, way.head step, final⟩
    · exact ⟨a, .refl, fun next step => more ⟨next, step⟩⟩

/-- There is an edge to each neighbor in the list. -/
def Goes (neighbors : Vertex → List Vertex) (a b : Vertex) : Prop := b ∈ neighbors a

/-- The edge to the neighbor that is listed first. -/
def GoesFirst (neighbors : Vertex → List Vertex) (a b : Vertex) : Prop :=
  ∃ back, neighbors a = b :: back

/-- The edge to the first neighbor, in the order of the list, from which a cycle can be reached. -/
def Leads (neighbors : Vertex → List Vertex) (a b : Vertex) : Prop :=
  ∃ front back, neighbors a = front ++ b :: back ∧
    (∀ other ∈ front, ¬ ReachesCycle (Goes neighbors) other) ∧ ReachesCycle (Goes neighbors) b

theorem GoesFirst.goes (first : GoesFirst neighbors a b) : Goes neighbors a b := by
  obtain ⟨back, listed⟩ := first
  rw [Goes, listed]
  exact List.mem_cons_self

/-- In a list with a good element, there is a first one. -/
theorem exists_first {Good : Vertex → Prop} {list : List Vertex} (some : ∃ a ∈ list, Good a) :
    ∃ front a back, list = front ++ a :: back ∧ (∀ other ∈ front, ¬ Good other) ∧ Good a := by
  induction list with
  | nil =>
    obtain ⟨_, member, _⟩ := some
    cases member
  | cons first rest ih =>
    by_cases good : Good first
    · exact ⟨[], first, rest, rfl, nofun, good⟩
    · -- The first element is not good, so a good one comes behind it.
      obtain ⟨a, member, holds⟩ := some
      rcases List.mem_cons.mp member with rfl | later
      · exact absurd holds good
      · obtain ⟨front, a, back, rfl, bad, holds⟩ := ih ⟨a, later, holds⟩
        exact ⟨first :: front, a, back, rfl, List.forall_mem_cons.mpr ⟨good, bad⟩, holds⟩

/-- A vertex that reaches a cycle has a first neighbor that does. -/
theorem ReachesCycle.leads (reaches : ReachesCycle (Goes neighbors) a) :
    ∃ b, Leads neighbors a b := by
  obtain ⟨b, member, onward⟩ := reaches.next
  obtain ⟨front, b, back, listed, bad, good⟩ := exists_first ⟨b, member, onward⟩
  exact ⟨b, front, back, listed, bad, good⟩

/-- On a cycle of first neighbors, the next vertex is on it as well. -/
theorem first_cycle_next (cycle : TransGen (GoesFirst neighbors) a a)
    (first : GoesFirst neighbors a b) : TransGen (GoesFirst neighbors) b b := by
  obtain ⟨other, step, back⟩ := TransGen.head'_iff.mp cycle
  -- Only one neighbor is listed first.
  have same : other = b := by
    obtain ⟨_, one⟩ := step
    obtain ⟨_, two⟩ := first
    rw [one] at two
    exact (List.cons.inj two).1
  rw [same] at back
  exact TransGen.tail' back first

end Foundations
