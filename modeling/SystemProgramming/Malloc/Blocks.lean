import SystemProgramming.Malloc.Links
import SystemProgramming.Foundations.Tiling

/-! The heap as a sequence of blocks: what the bytes have to say for a block list and a free list. -/

namespace SystemProgramming.Malloc

open Foundations

/-- A block of the heap: its header address, its payload size, and whether it is free. -/
structure Block where
  addr : Nat
  size : Nat
  free : Bool
  deriving DecidableEq, Repr

namespace Block

/-- The payload starts behind the header; this is the pointer that the user holds. -/
abbrev payload (block : Block) : Nat := block.addr + 32

/-- The tag lies behind the payload. -/
abbrev tagAddr (block : Block) : Nat := block.addr + 32 + block.size

/-- The block ends behind its tag. -/
abbrev stop (block : Block) : Nat := block.addr + 40 + block.size

end Block

/-- The header and the tag of a block are in memory: both sizes and the free flag. -/
structure Stored (h : Heap) (block : Block) : Prop where
  size : h.get .size block.addr = block.size
  flag : h.get .free block.addr = block.free.toNat
  tag : h.tag block.tagAddr = block.size

instance (h : Heap) (block : Block) : Decidable (Stored h block) :=
  decidable_of_iff (h.get .size block.addr = block.size ∧
      h.get .free block.addr = block.free.toNat ∧ h.tag block.tagAddr = block.size)
    ⟨fun ⟨size, flag, tag⟩ => ⟨size, flag, tag⟩, fun stored => ⟨stored.size, stored.flag, stored.tag⟩⟩

/-- A block given by its parts is stored when its two fields and its tag read so. -/
theorem Stored.of_fields {h : Heap} {addr size : Nat} {free : Bool}
    (sizeIs : h.get .size addr = size) (flagIs : h.get .free addr = free.toNat)
    (tagIs : h.tag (addr + 32 + size) = size) : Stored h ⟨addr, size, free⟩ :=
  ⟨sizeIs, flagIs, tagIs⟩

/-- Where the heap starts; before the first allocation it is empty, at the break. -/
def Heap.base (h : Heap) : Nat := if h.start = null then h.brk else h.start

/-- The heap from its start to the break is exactly this sequence of blocks. -/
structure Layout (h : Heap) (blocks : List Block) : Prop where
  tiles : Tiles Block.addr Block.stop h.base blocks h.brk
  stored : ∀ block ∈ blocks, Stored h block

instance (h : Heap) (blocks : List Block) : Decidable (Layout h blocks) :=
  decidable_of_iff (Tiles Block.addr Block.stop h.base blocks h.brk ∧
      ∀ block ∈ blocks, Stored h block)
    ⟨fun ⟨tiles, stored⟩ => ⟨tiles, stored⟩, fun layout => ⟨layout.tiles, layout.stored⟩⟩

/--
The bytes hold a block list and a free list of exactly its free blocks. The word below the start
reads zero, and the heap lies in the lower half of the address space.
-/
structure Represents (h : Heap) (blocks : List Block) (list : List Nat) : Prop
    extends Layout h blocks where
  links : FreeLinks h list
  distinct : list.Nodup
  exactly : ∀ node, node ∈ list ↔ ∃ block ∈ blocks, block.addr = node ∧ block.free = true
  guard : h.tag (h.base - 8) = 0
  low : 40 ≤ h.base
  high : h.brk ≤ h.limit
  limit : h.limit ≤ 2 ^ 63

variable {h h' : Heap} {blocks front back old new : List Block} {list list' touched : List Nat}
  {block other : Block} {node left right lower upper : Nat}

/-- One block tiles its own range. -/
theorem tiles_single (block : Block) : Tiles Block.addr Block.stop block.addr [block] block.stop := by
  simp only [Tiles, Block.stop, true_and, and_true]
  omega

/-- A process that only moved bytes has the same heap start. -/
theorem SameProcess.base (process : SameProcess h h') : h'.base = h.base := by
  simp only [Heap.base, process.start, process.brk]

/-- A size or flag that no allowed write reaches still reads the same. -/
theorem Untouched.get {field : Field} (same : Untouched touched lower upper h h')
    (outside : node + 32 ≤ lower ∨ upper ≤ node) (plain : field = .size ∨ field = .free)
    (apart : ∀ link ∈ touched, Apart node link) : h'.get field node = h.get field node := by
  refine Memory.load_congr fun address above below => same address ?_ fun link member => ?_
  · rcases plain with rfl | rfl <;> simp only [Field.offset, Field.width] at above below <;> omega
  · -- The link fields lie between the size and the flag of a header.
    have away := apart link member
    unfold Apart at away
    rcases plain with rfl | rfl <;> simp only [Field.offset, Field.width] at above below <;> omega

/-- With no link writes allowed, every field outside the range still reads the same. -/
theorem Untouched.get_all {field : Field} (same : Untouched [] lower upper h h')
    (outside : node + 32 ≤ lower ∨ upper ≤ node) : h'.get field node = h.get field node := by
  have within := field.inside
  exact Memory.load_congr fun address above below => same address (by omega) (by simp)

/-- A tag that no allowed write reaches still reads the same. -/
theorem Untouched.tag {address : Nat} (same : Untouched touched lower upper h h')
    (outside : address + 8 ≤ lower ∨ upper ≤ address)
    (apart : ∀ link ∈ touched, address + 8 ≤ link ∨ link + 32 ≤ address) :
    h'.tag address = h.tag address := by
  refine Memory.load_congr fun place above below => same place ?_ fun link member => ?_
  · unfold dataSizeSize at below
    omega
  · have away := apart link member
    unfold dataSizeSize at below
    omega

/-- A block keeps its header and tag when the writes stay outside it. -/
theorem Stored.frame (stored : Stored h block) (same : Untouched touched lower upper h h')
    (outside : block.stop ≤ lower ∨ upper ≤ block.addr)
    (apart : ∀ link ∈ touched, link = block.addr ∨ link + 32 ≤ block.addr ∨ block.stop ≤ link) :
    Stored h' block := by
  -- No link field that may change lies in the header or the tag of the block.
  have headers : ∀ link ∈ touched, Apart block.addr link := fun link member => by
    have away := apart link member
    unfold Apart
    simp only [Block.stop] at away
    omega
  refine ⟨?_, ?_, ?_⟩
  · rw [same.get (by simp only [Block.stop] at outside; omega) (.inl rfl) headers, stored.size]
  · rw [same.get (by simp only [Block.stop] at outside; omega) (.inr rfl) headers, stored.flag]
  · rw [same.tag (by simp only [Block.stop] at outside; simp only [Block.tagAddr]; omega)
      (fun link member => ?_), stored.tag]
    have away := apart link member
    simp only [Block.stop] at away
    simp only [Block.tagAddr]
    omega

/-- Writes inside the payload of a block leave its header and its tag alone. -/
theorem Stored.inside (stored : Stored h block) (same : Untouched [] lower upper h h')
    (above : block.addr + 32 ≤ lower) (below : upper ≤ block.addr + 32 + block.size) :
    Stored h' block := by
  refine ⟨?_, ?_, ?_⟩
  · rw [same.get_all (.inl above)]
    exact stored.size
  · rw [same.get_all (.inl above)]
    exact stored.flag
  · rw [Block.tagAddr, same.tag (.inr below) (by simp)]
    exact stored.tag

namespace Represents

/-- Every node of the free list is the header of a free block. -/
theorem block_of_node (rep : Represents h blocks list) (member : node ∈ list) :
    ∃ block ∈ blocks, block.addr = node ∧ block.free = true := (rep.exactly node).mp member

/-- Blocks lie inside the heap. -/
theorem bounds (rep : Represents h blocks list) (member : block ∈ blocks) :
    h.base ≤ block.addr ∧ block.stop ≤ h.brk :=
  ⟨(rep.tiles.bounds member).1, (rep.tiles.bounds member).2.2⟩

/-- Different blocks lie apart. -/
theorem apart (rep : Represents h blocks list) (member : block ∈ blocks)
    (second : other ∈ blocks) : block = other ∨ block.stop ≤ other.addr ∨ other.stop ≤ block.addr :=
  rep.tiles.apart member second

/-- The nodes of the free list are proper nodes. -/
theorem nodes (rep : Represents h blocks list) : Nodes list where
  distinct := rep.distinct
  low node member := by
    obtain ⟨block, inside, rfl, _⟩ := rep.block_of_node member
    have bounds := rep.bounds inside
    have low := rep.low
    omega
  bounded node member := by
    obtain ⟨block, inside, rfl, _⟩ := rep.block_of_node member
    have bounds := rep.bounds inside
    have high := rep.high
    have limit := rep.limit
    simp only [Block.stop] at bounds
    omega
  -- Nodes are headers of blocks, and different blocks lie apart.
  apart node member second secondMember := by
    obtain ⟨block, inside, rfl, _⟩ := rep.block_of_node member
    obtain ⟨other, otherInside, rfl, _⟩ := rep.block_of_node secondMember
    unfold Apart
    rcases rep.apart inside otherInside with rfl | away
    · exact .inl rfl
    · simp only [Block.stop] at away
      omega

/-- A node of the free list does not lie inside any other block. -/
theorem node_outside (rep : Represents h blocks list) (member : node ∈ list)
    (inside : block ∈ blocks) : node = block.addr ∨ node + 40 ≤ block.addr ∨ block.stop ≤ node := by
  -- The node is the header of a block of its own.
  obtain ⟨owner, ownerInside, rfl, _⟩ := rep.block_of_node member
  rcases rep.apart ownerInside inside with rfl | away
  · exact .inl rfl
  · simp only [Block.stop] at away ⊢
    omega

/-- The free blocks outside a stretch are the nodes of the list that no block of it owns. -/
theorem exactly_outside (rep : Represents h (front ++ (old ++ back)) list) :
    (∃ block ∈ front ++ back, block.addr = node ∧ block.free = true) ↔
      node ∈ list ∧ ∀ block ∈ old, block.addr ≠ node := by
  constructor
  · intro found
    obtain ⟨block, member, rfl, free⟩ := found
    have whole : block ∈ front ++ (old ++ back) := by grind
    refine ⟨(rep.exactly _).mpr ⟨block, whole, rfl, free⟩, fun other inOld same => ?_⟩
    -- Two blocks with one address are one block, and no block occurs twice.
    have equal : block = other :=
      rep.tiles.eq_of_low_eq whole (by grind) same.symm
    have distinct := rep.tiles.nodup
    grind
  · intro both
    obtain ⟨member, outside⟩ := both
    obtain ⟨block, inside, rfl, free⟩ := rep.block_of_node member
    have notOld : block ∉ old := fun inOld => outside block inOld rfl
    exact ⟨block, by grind, rfl, free⟩

/-- A block that is not in a stretch lies on one side of it. -/
theorem outside_stretch (rep : Represents h (front ++ (old ++ back)) list)
    (member : block ∈ front ++ (old ++ back)) (notOld : block ∉ old) :
    ∃ left right, Tiles Block.addr Block.stop left old right ∧
      (block.stop ≤ left ∨ right ≤ block.addr) := by
  obtain ⟨left, ahead, tail⟩ := Tiles.append_iff.mp rep.tiles
  obtain ⟨right, inside, behind⟩ := Tiles.append_iff.mp tail
  refine ⟨left, right, inside, ?_⟩
  have place : block ∈ front ∨ block ∈ back := by grind
  rcases place with isFront | isBack
  · exact .inl (ahead.bounds isFront).2.2
  · exact .inr (behind.bounds isBack).1

/--
Exchanging a stretch of blocks: the bytes outside it are kept, up to links of the free list, the
new blocks are stored, and the new free list holds exactly the free blocks.
-/
theorem exchange (old new : List Block) (rep : Represents h (front ++ (old ++ back)) list)
    (process : SameProcess h h')
    (nonempty : old ≠ []) (was : Tiles Block.addr Block.stop left old right)
    (becomes : Tiles Block.addr Block.stop left new right)
    (same : Untouched list left right h h') (stored : ∀ block ∈ new, Stored h' block)
    (links : FreeLinks h' list') (distinct : list'.Nodup)
    (exactly : ∀ node, node ∈ list' ↔ (node ∈ list ∧ ∀ block ∈ old, block.addr ≠ node) ∨
      ∃ block ∈ new, block.addr = node ∧ block.free = true) :
    Represents h' (front ++ (new ++ back)) list' := by
  have base := process.base
  -- The stretch starts at the end of the front and ends at the start of the back.
  obtain ⟨middle, ahead, tail⟩ := Tiles.append_iff.mp rep.tiles
  obtain ⟨last, inside, behind⟩ := Tiles.append_iff.mp tail
  have ends : middle = left ∧ last = right := was.ends_unique nonempty inside
  obtain ⟨rfl, rfl⟩ := ends
  -- The blocks outside the stretch are neither in the written range nor overlapped by a node.
  have keep : ∀ block ∈ front ++ back, Stored h' block := fun block member => by
    have whole : block ∈ front ++ (old ++ back) := by grind
    refine (rep.stored block whole).frame same ?_ fun link linkMember => ?_
    · rcases List.mem_append.mp member with isFront | isBack
      · exact .inl (ahead.bounds isFront).2.2
      · exact .inr (behind.bounds isBack).1
    · have outside := rep.node_outside linkMember whole
      omega
  refine { tiles := ?_, stored := ?_, links, distinct, exactly := fun node => ?_, guard := ?_,
           low := ?_, high := ?_, limit := ?_ }
  · rw [base, process.brk]
    exact rep.tiles.exchange was nonempty becomes
  · intro block member
    have cases : block ∈ new ∨ block ∈ front ++ back := by grind
    exact cases.elim (stored block) (keep block)
  · -- The free blocks are the old ones outside the stretch and the free ones of the new stretch.
    rw [exactly node, ← rep.exactly_outside]
    grind
  · -- The word below the start is neither in the stretch nor in a node.
    rw [base, same.tag (.inl ?_) (fun link linkMember => ?_), rep.guard]
    · have := ahead.le
      have := rep.low
      omega
    · obtain ⟨owner, ownerInside, rfl, _⟩ := rep.block_of_node linkMember
      have := (rep.bounds ownerInside).1
      have := rep.low
      omega
  · rw [base]; exact rep.low
  · rw [process.brk, process.limit]; exact rep.high
  · rw [process.limit]; exact rep.limit

/--
Growing at the break: one more block that is not free, outside links of the free list no byte of
the old heap is written, and the free list stays.
-/
theorem extend (rep : Represents h blocks list) (started : h.start ≠ null) (size : Nat)
    (brk : h'.brk = h.brk + 40 + size) (start : h'.start = h.start) (limit : h'.limit = h.limit)
    (room : h.brk + 40 + size ≤ h.limit)
    (same : Untouched list h.brk (h.brk + 40 + size) h h')
    (stored : Stored h' ⟨h.brk, size, false⟩) (links : FreeLinks h' list) :
    Represents h' (blocks ++ [⟨h.brk, size, false⟩]) list := by
  have base : h'.base = h.base := by simp only [Heap.base, start, if_neg started]
  refine { tiles := ?_, stored := ?_, links, distinct := rep.distinct, exactly := fun node => ?_,
           guard := ?_, low := by rw [base]; exact rep.low, high := ?_, limit := ?_ }
  · rw [base, brk]
    exact Tiles.append_iff.mpr ⟨h.brk, rep.tiles, tiles_single ⟨h.brk, size, false⟩⟩
  · intro block member
    rcases List.mem_append.mp member with old | new
    · -- Old blocks end at or below the old break, where the writes begin.
      refine (rep.stored block old).frame same (.inl (rep.bounds old).2) fun link linkMember => ?_
      have outside := rep.node_outside linkMember old
      omega
    · rw [List.mem_singleton.mp new]
      exact stored
  · rw [rep.exactly node]
    grind
  · have above := rep.tiles.le
    -- The word below the start lies below all writes.
    rw [base, same.tag (.inl ?_) (fun link linkMember => ?_), rep.guard]
    · have := rep.low
      omega
    · obtain ⟨owner, ownerInside, rfl, _⟩ := rep.block_of_node linkMember
      have := (rep.bounds ownerInside).1
      have := rep.low
      omega
  · rw [brk, limit]; exact room
  · rw [limit]; exact rep.limit

end Represents

end SystemProgramming.Malloc
