import SystemProgramming.Malloc.Unguarded

/-! The machine that allows only the heap, and what of the heap it allows. -/

namespace SystemProgramming.Malloc

open Foundations Faulting Machine

/-- The machine that allows the addresses from `lower` on, below `upper`. -/
def Machine.within (lower upper : Nat) (sbrk : Heap → Nat → Nat × Heap) : Machine :=
  ⟨sbrk, fun address width => decide (lower ≤ address ∧ address + width ≤ upper)⟩

variable {h : Heap} {blocks : List Block} {list : List Nat} {block : Block}
  {kernel : Heap → Nat → Nat × Heap} {node size fuel lower upper address width : Nat}

theorem within_allows (low : lower ≤ address) (high : address + width ≤ upper) :
    (within lower upper kernel).allows address width = true := decide_eq_true ⟨low, high⟩

/-- A header that lies in the range is allowed. -/
theorem within_opens (low : lower ≤ node) (high : node + 32 ≤ upper) :
    (within lower upper kernel).Opens node := by
  intro field
  have inside := field.inside
  exact within_allows (by omega) (by omega)

/-- An access that leaves the range stops the program. -/
theorem within_check (outside : address < lower ∨ upper < address + width) :
    (check address ((within lower upper kernel).allows address width) : Program Unit).run h =
      .error (.fault address) := by
  have refuses : (within lower upper kernel).allows address width = false :=
    decide_eq_false fun both => by omega
  rw [refuses, run_check_false]

/-- The links of a node lead to nodes. -/
theorem FreeLinks.neighbours_mem (links : FreeLinks h list) (member : node ∈ list) :
    (h.get .before node ≠ null → h.get .before node ∈ list) ∧
      (h.get .after node ≠ null → h.get .after node ∈ list) := by
  obtain ⟨front, back, rfl⟩ := List.append_of_mem member
  obtain ⟨before, after⟩ := links.neighbours
  obtain ⟨last, first⟩ := @neighbours_members front back
  rw [before, after]
  constructor
  · intro nonnull
    have := last nonnull
    grind
  · intro nonnull
    have := first nonnull
    grind

/-- The head of a list is a node of it, unless the list is empty. -/
theorem FreeLinks.head_mem (links : FreeLinks h list) (nonempty : h.head ≠ null) : h.head ∈ list := by
  rw [links.head] at nonempty ⊢
  cases list with
  | nil => exact absurd rfl nonempty
  | cons first rest => exact List.mem_cons_self

namespace Represents

/-- Within the heap, the headers of all blocks are allowed. -/
theorem opens_block (rep : Represents h blocks list) (member : block ∈ blocks) :
    (within h.base h.brk kernel).Opens block.addr := by
  have bounds := rep.bounds member
  simp only [Block.stop] at bounds
  exact within_opens bounds.1 (by omega)

/-- So are the nodes of the free list. -/
theorem opens_node (rep : Represents h blocks list) (member : node ∈ list) :
    (within h.base h.brk kernel).Opens node := by
  obtain ⟨owner, inside, rfl, _⟩ := rep.block_of_node member
  exact rep.opens_block inside

/-- The search of a represented heap stays inside it. -/
theorem search_within (rep : Represents h blocks list) :
    ((within h.base h.brk kernel).findFreeGetAddr fuel size).run h =
      returned ((findFreeGetAddr fuel h size).map fun found => (found, h)) := by
  unfold Machine.findFreeGetAddr findFreeGetAddr
  rw [run_bind_ok run_head]
  apply findFreeLoop_run (· ∈ list)
  · exact fun node member => rep.opens_node member
  · exact fun node member onward => (rep.links.neighbours_mem member).2 onward
  · exact rep.links.head_mem

end Represents

end SystemProgramming.Malloc
