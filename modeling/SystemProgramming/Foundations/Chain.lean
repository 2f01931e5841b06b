import Mathlib.Data.List.Nodup
import Mathlib.Logic.Function.Basic

/-! Singly linked lists in a heap: the nodes met on the way from one cell to another. -/

namespace Foundations

/-- Following the links from `first` meets exactly the listed nodes and ends at `stop`. -/
def Chain {Cell Node : Type*} (next : Node → Cell) (heap : Cell → Option Node) (stop : Cell) :
    Cell → List (Cell × Node) → Prop
  | first, [] => first = stop
  | first, (cell, node) :: rest =>
    cell = first ∧ heap first = some node ∧ Chain next heap stop (next node) rest

variable {Cell Node : Type*} {next : Node → Cell} {heap other : Cell → Option Node}
  {first stop : Cell} {nodes rest : List (Cell × Node)} {cell : Cell} {node : Node}

namespace Chain

/-- Every node of a chain is in the heap. -/
theorem stored (chain : Chain next heap stop first nodes) (member : (cell, node) ∈ nodes) :
    heap cell = some node := by
  -- The node is the first one, or lies on the chain that starts behind it.
  induction nodes generalizing first with
  | nil => cases member
  | cons head rest ih =>
    obtain ⟨rfl, found, tail⟩ := chain
    rcases List.mem_cons.mp member with same | later
    · cases same
      exact found
    · exact ih tail later

/-- The way from a cell to the end of the chain depends only on the heap. -/
theorem unique (chain : Chain next heap stop first nodes)
    (again : Chain next heap stop first rest) (outside : heap stop = none) : nodes = rest := by
  -- Both ways read the same node at every cell, and only the end of the chain is not in the heap.
  induction nodes generalizing first rest with
  | nil =>
    cases rest with
    | nil => rfl
    | cons head rest =>
      obtain ⟨_, found, _⟩ := again
      rw [show first = stop from chain, outside] at found
      cases found
  | cons head nodes ih =>
    obtain ⟨rfl, found, tail⟩ := chain
    cases rest with
    | nil =>
      rw [show head.1 = stop from again, outside] at found
      cases found
    | cons second rest =>
      obtain ⟨place, same, restTail⟩ := again
      rw [found] at same
      have equal : head.2 = second.2 := Option.some.inj same
      rw [← equal] at restTail
      rw [ih tail restTail, Prod.ext place.symm equal]

/-- A chain splits at every position, where the rest starts at the cell that comes next. -/
theorem append_iff : Chain next heap stop first (nodes ++ rest) ↔
    ∃ middle, Chain next heap middle first nodes ∧ Chain next heap stop middle rest := by
  induction nodes generalizing first with
  | nil => simp [Chain]
  | cons head nodes ih => simp [Chain, ih, and_assoc]

/-- No cell is met twice. -/
theorem nodup (chain : Chain next heap stop first nodes) (outside : heap stop = none) :
    (nodes.map Prod.fst).Nodup := by
  induction nodes generalizing first with
  | nil => exact List.nodup_nil
  | cons head nodes ih =>
    obtain ⟨rfl, found, tail⟩ := chain
    refine List.nodup_cons.mpr ⟨?_, ih tail⟩
    intro repeated
    -- From the second visit on, the chain would be as long as from the first one.
    obtain ⟨⟨cell, node⟩, member, same⟩ := List.mem_map.mp repeated
    obtain ⟨front, back, split⟩ := List.append_of_mem member
    have whole : Chain next heap stop head.1 (head :: nodes) := ⟨rfl, found, tail⟩
    rw [split] at tail
    obtain ⟨middle, _, later⟩ := append_iff.mp tail
    have start : middle = head.1 := later.1.symm.trans same
    rw [start] at later
    have lengths := congrArg List.length (whole.unique later outside)
    rw [split] at lengths
    simp only [List.length_cons, List.length_append] at lengths
    omega

/-- A heap that agrees on the cells of a chain has the same chain. -/
theorem congr (chain : Chain next heap stop first nodes)
    (same : ∀ cell ∈ nodes.map Prod.fst, other cell = heap cell) :
    Chain next other stop first nodes := by
  induction nodes generalizing first with
  | nil => exact chain
  | cons head nodes ih =>
    obtain ⟨rfl, found, tail⟩ := chain
    refine ⟨rfl, (same head.1 (by simp)).trans found, ih tail ?_⟩
    intro cell member
    exact same cell (by simp [member])

/-- A chain starts at its end only when it is empty. -/
theorem eq_nil_iff (chain : Chain next heap stop first nodes) (outside : heap stop = none) :
    nodes = [] ↔ first = stop := by
  cases nodes with
  | nil => exact ⟨fun _ => chain, fun _ => rfl⟩
  | cons head nodes =>
    refine ⟨nofun, fun same => ?_⟩
    -- The first node is in the heap, and the end is not.
    obtain ⟨_, found, _⟩ := chain
    rw [same, outside] at found
    cases found

variable [DecidableEq Cell]

/-- Linking a new node behind the last one makes the chain one node longer. -/
theorem snoc {fresh : Cell} {last changed : Node}
    (chain : Chain next heap stop first (nodes ++ [(cell, last)])) (outside : heap stop = none)
    (unused : heap fresh = none) (links : next changed = fresh) (ends : next node = stop) :
    Chain next (Function.update (Function.update heap fresh (some node)) cell (some changed)) stop
      first (nodes ++ [(cell, changed), (fresh, node)]) := by
  have distinct := chain.nodup outside
  obtain ⟨middle, front, back⟩ := append_iff.mp chain
  obtain ⟨rfl, found, _⟩ := back
  have apart : fresh ≠ cell := by
    intro same
    subst same
    rw [unused] at found
    cases found
  refine append_iff.mpr ⟨cell, front.congr ?_, rfl, ?_, ?_⟩
  · -- The nodes before the last one are neither the last nor the new one.
    intro other member
    have notLast : other ≠ cell := by
      rw [List.map_append, List.nodup_append] at distinct
      exact fun same => distinct.2.2 other member cell (by simp) same
    have notFresh : other ≠ fresh := by
      intro same
      subst same
      obtain ⟨⟨_, stored⟩, inside, rfl⟩ := List.mem_map.mp member
      rw [front.stored inside] at unused
      cases unused
    rw [Function.update_of_ne notLast, Function.update_of_ne notFresh]
  · exact Function.update_self _ _ _
  · rw [links]
    refine ⟨rfl, ?_, ends⟩
    rw [Function.update_of_ne apart, Function.update_self]

/-- Setting the link of its last node makes a chain lead somewhere else. -/
theorem redirect {last changed : Node} {target : Cell}
    (chain : Chain next heap stop first (nodes ++ [(cell, last)]))
    (distinct : ((nodes ++ [(cell, last)]).map Prod.fst).Nodup) (links : next changed = target) :
    Chain next (Function.update heap cell (some changed)) target first
      (nodes ++ [(cell, changed)]) := by
  obtain ⟨middle, front, back⟩ := append_iff.mp chain
  obtain ⟨rfl, found, _⟩ := back
  refine append_iff.mpr ⟨cell, front.congr ?_, rfl, Function.update_self _ _ _, links⟩
  -- The nodes before the last one are other nodes.
  intro other member
  rw [List.map_append, List.nodup_append] at distinct
  exact Function.update_of_ne (distinct.2.2 other member cell (by simp)) _ _

/-- Taking the first node out of the heap leaves the chain of the others. -/
theorem behead (chain : Chain next heap stop first ((cell, node) :: nodes))
    (outside : heap stop = none) :
    Chain next (Function.update heap first none) stop (next node) nodes := by
  have distinct := chain.nodup outside
  obtain ⟨rfl, _, tail⟩ := chain
  refine tail.congr fun other member => ?_
  refine Function.update_of_ne ?_ _ _
  intro same
  subst same
  exact (List.nodup_cons.mp distinct).1 member

end Chain

end Foundations
