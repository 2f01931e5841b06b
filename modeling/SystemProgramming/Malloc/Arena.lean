import SystemProgramming.Malloc.Blocks

/-! What the allocator does, told on block lists alone: serving, releasing and trimming blocks. -/

namespace SystemProgramming.Malloc

open Foundations

/--
Serving a request of `size` bytes: the block list and the break before, the block handed out, and
the block list and the break after. The index `chosen` is the node that the search returned.
-/
inductive Served (size : Nat) : Nat → List Block → Nat → Block → List Block → Nat → Prop
  /-- A free block that leaves no room for a second header is handed out whole. -/
  | reuse (front back : List Block) (block : Block) (brk : Nat) (free : block.free = true)
      (fits : size ≤ block.size) (tight : block.size ≤ size + 40) :
      Served size block.addr (front ++ block :: back) brk { block with free := false }
        (front ++ { block with free := false } :: back) brk
  /-- A larger free block is cut, and its second part stays free. -/
  | split (front back : List Block) (block : Block) (brk : Nat) (free : block.free = true)
      (room : size + 40 < block.size) :
      Served size block.addr (front ++ block :: back) brk ⟨block.addr, size, false⟩
        (front ++ (⟨block.addr, size, false⟩ ::
          ⟨block.addr + 40 + size, block.size - size - 40, true⟩ :: back)) brk
  /-- Only when no free block is large enough does the heap grow. -/
  | grow (blocks : List Block) (brk : Nat)
      (full : ∀ block ∈ blocks, block.free = true → block.size < size) :
      Served size null blocks brk ⟨brk, size, false⟩ (blocks ++ [⟨brk, size, false⟩])
        (brk + 40 + size)

/-- The block behind the stretch can be joined: it is free and its header is not too near the break. -/
def Reaches (brk : Nat) (next : Block) : Prop := next.free = true ∧ next.addr + 1024 ≤ brk

/-- Releasing one block: with which of its two neighbours it is joined. -/
inductive Released (brk : Nat) (block : Block) : List Block → List Block → Prop
  /-- Neither neighbour can be joined. -/
  | alone (front back : List Block)
      (before : ∀ prior ∈ front.getLast?, prior.free = false)
      (after : ∀ next ∈ back.head?, ¬ Reaches brk next) :
      Released brk block (front ++ block :: back) (front ++ { block with free := true } :: back)
  /-- Only the block behind is joined. -/
  | withAfter (front back : List Block) (next : Block)
      (before : ∀ prior ∈ front.getLast?, prior.free = false) (after : Reaches brk next) :
      Released brk block (front ++ block :: next :: back)
        (front ++ ⟨block.addr, block.size + next.size + 40, true⟩ :: back)
  /-- Only the block in front is joined. -/
  | withBefore (front back : List Block) (prior : Block) (before : prior.free = true)
      (after : ∀ next ∈ back.head?, ¬ Reaches brk next) :
      Released brk block (front ++ prior :: block :: back)
        (front ++ ⟨prior.addr, prior.size + block.size + 40, true⟩ :: back)
  /-- Both neighbours are joined. -/
  | both (front back : List Block) (prior next : Block) (before : prior.free = true)
      (after : Reaches brk next) :
      Released brk block (front ++ prior :: block :: next :: back)
        (front ++ ⟨prior.addr, prior.size + block.size + next.size + 80, true⟩ :: back)

/-- Cutting a live block that shrinks to `size` bytes; the rest becomes a free block. -/
inductive Trimmed (size : Nat) (block : Block) : Block → List Block → List Block → Prop
  /-- Up to the limit, or without room for a second header, the block stays as it is. -/
  | keep (blocks : List Block) (small : block.size ≤ reductionLimit ∨ block.size ≤ size + 40) :
      Trimmed size block block blocks blocks
  /-- A larger block is cut. -/
  | cut (front back : List Block) (large : reductionLimit < block.size)
      (room : size + 40 < block.size) :
      Trimmed size block ⟨block.addr, size, false⟩ (front ++ block :: back)
        (front ++ (⟨block.addr, size, false⟩ ::
          ⟨block.addr + 40 + size, block.size - size - 40, true⟩ :: back))

/-- The bytes of one payload are the same in both heaps. -/
def PayloadKept (h h' : Heap) (block : Block) : Prop :=
  ∀ address, block.payload ≤ address → address < block.payload + block.size →
    h'.mem address = h.mem address

variable {h h' : Heap} {blocks front back : List Block} {list : List Nat} {block : Block} {left right : Nat}

/-- Writes outside a live block, and links of free blocks, keep its payload. -/
theorem Represents.payload_kept (rep : Represents h blocks list) (member : block ∈ blocks)
    (live : block.free = false) (outside : block.stop ≤ left ∨ right ≤ block.addr)
    (same : Untouched list left right h h') : PayloadKept h h' block := by
  -- Outside the written range only links may change, and these lie in headers of free blocks.
  intro address above below
  refine same address (by simp only [Block.stop, Block.payload] at *; omega) fun link inList => ?_
  rcases rep.node_outside inList member with equal | away
  · -- A node of the list is a free block, so it is not this one.
    obtain ⟨owner, inside, place, free⟩ := rep.block_of_node inList
    have : owner = block := rep.tiles.eq_of_low_eq inside member (place.trans equal)
    rw [this, live] at free
    cases free
  · simp only [Block.stop, Block.payload] at *
    omega

/-- Writes inside a stretch of blocks, and links of free blocks, keep the payloads outside it. -/
theorem Represents.stretch_kept (old : List Block) (rep : Represents h (front ++ (old ++ back)) list)
    (member : block ∈ front ++ (old ++ back)) (live : block.free = false) (notOld : block ∉ old)
    (same : ∀ left right, Tiles Block.addr Block.stop left old right →
      Untouched list left right h h') : PayloadKept h h' block := by
  obtain ⟨left, right, range, outside⟩ := rep.outside_stretch member notOld
  exact rep.payload_kept member live outside (same left right range)

end SystemProgramming.Malloc
