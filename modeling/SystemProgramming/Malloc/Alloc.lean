import SystemProgramming.Foundations.ByteMemory

/-! The allocator: its header fields and tags in memory, the free list, and the four entry points. -/

namespace SystemProgramming.Malloc

open Foundations

/-- The null pointer; addresses and `size_t` values are numbers, computed modulo 2^64. -/
abbrev null : Nat := 0

/-- `sizeof(data_node)`: three eight-byte fields, an `int`, and its padding. -/
abbrev structSize : Nat := 32

/-- `sizeof(size_t*)`, the width of the size tag behind every payload. -/
abbrev dataSizeSize : Nat := 8

/-- What is left of a sum in 64 bits. -/
def wrap (value : Nat) : Nat := value % 2 ^ 64

/-- Unsigned 64-bit subtraction. -/
def wrapSub (left right : Nat) : Nat := (left + (2 ^ 64 - right % 2 ^ 64)) % 2 ^ 64

/-- The fields of `data_node`. -/
inductive Field where
  | size
  | before
  | after
  | free
  deriving DecidableEq, Repr

/-- Where a field lies in the header. -/
def Field.offset : Field → Nat
  | size => 0
  | before => 8
  | after => 16
  | free => 24

/-- How many bytes a field takes; `free` is an `int`. -/
def Field.width : Field → Nat
  | size => 8
  | before => 8
  | after => 8
  | free => 4

/--
The process as the allocator sees it: the bytes, the program break, the range in which the kernel
is willing to place it, and the two static variables.
-/
structure Heap where
  mem : Memory
  brk : Nat
  floor : Nat
  limit : Nat
  head : Nat
  start : Nat

namespace Heap

/-- Reading a header field. -/
def get (h : Heap) (field : Field) (node : Nat) : Nat :=
  h.mem.load (node + field.offset) field.width

/-- Writing a header field. -/
def set (h : Heap) (field : Field) (node : Nat) (value : Nat) : Heap :=
  { h with mem := h.mem.store (node + field.offset) field.width value }

/-- Reading a size tag. -/
def tag (h : Heap) (address : Nat) : Nat := h.mem.load address dataSizeSize

/-- Writing a size tag. -/
def setTag (h : Heap) (address : Nat) (value : Nat) : Heap :=
  { h with mem := h.mem.store address dataSizeSize value }

abbrev size (h : Heap) (node : Nat) : Nat := h.get .size node
abbrev before (h : Heap) (node : Nat) : Nat := h.get .before node
abbrev after (h : Heap) (node : Nat) : Nat := h.get .after node
abbrev free (h : Heap) (node : Nat) : Nat := h.get .free node

end Heap

/-- What a failing `sbrk` returns, `(void*)-1`. -/
def sbrkFailed : Nat := 2 ^ 64 - 1

/--
The kernel's `sbrk`: it reads its argument as a signed number, refuses to leave its range, hands
out zero bytes, and returns the break it found.
-/
def sbrk (h : Heap) (increment : Nat) : Nat × Heap :=
  if increment < 2 ^ 63 then
    if h.brk + increment ≤ h.limit then
      (h.brk, { h with brk := h.brk + increment, mem := h.mem.fill h.brk increment 0 })
    else (sbrkFailed, h)
  -- A number from 2^63 on is negative, and the break moves down by its complement.
  else if h.floor + (2 ^ 64 - increment) ≤ h.brk then
    (h.brk, { h with brk := h.brk - (2 ^ 64 - increment) })
  else (sbrkFailed, h)

/-- Removing a node from the free list. -/
def deleteDataNode (h : Heap) (beDeleted : Nat) : Heap :=
  if beDeleted = null then h
  else if h.before beDeleted = null ∧ h.after beDeleted = null then { h with head := null }
  else if h.before beDeleted ≠ null ∧ h.after beDeleted ≠ null then
    -- The second write reads the links of the node again, after the first one.
    let h := h.set .before (h.after beDeleted) (h.before beDeleted)
    h.set .after (h.before beDeleted) (h.after beDeleted)
  else if h.after beDeleted ≠ null then
    let h := h.set .before (h.after beDeleted) null
    { h with head := h.after beDeleted }
  else h.set .after (h.before beDeleted) null

/-- The loop of `find_free_get_addr`; without fuel it has not finished yet. -/
def findFreeLoop (h : Heap) (size : Nat) : Nat → Nat → Option Nat
  | 0, _ => none
  | fuel + 1, current =>
    if current = null then some null
    else if h.free current ≠ 0 ∧ h.size current ≥ size then some current
    else findFreeLoop h size fuel (h.after current)

/-- First fit along the free list. -/
def findFreeGetAddr (fuel : Nat) (h : Heap) (size : Nat) : Option Nat :=
  findFreeLoop h size fuel h.head

/-- A new block at the break, linked in front of the free list. -/
def expandHeap (h : Heap) (size : Nat) : Nat × Heap :=
  let totalSize := wrap (structSize + size + dataSizeSize)
  let (newGetAddr, h) := sbrk h totalSize
  -- The test reads the first word of the new memory, not the pointer that sbrk returned.
  if h.mem.load newGetAddr 4 = 2 ^ 32 - 1 then (null, h)
  else
    let h := h.set .size newGetAddr size
    let h := h.set .free newGetAddr 0
    let h := h.set .before newGetAddr null
    let h := h.set .after newGetAddr h.head
    let h := if h.head ≠ null then h.set .before h.head newGetAddr else h
    let h := { h with head := newGetAddr }
    (newGetAddr, h.setTag (wrap (newGetAddr + structSize + size)) size)

/-- Putting `newData` at the place of `cur` in the free list. -/
def relistSplit (h : Heap) (cur newData : Nat) : Heap :=
  if h.before cur ≠ null ∧ h.after cur ≠ null then
    let h := h.set .after (h.before cur) newData
    h.set .before (h.after cur) newData
  else if h.before cur ≠ null then h.set .after (h.before cur) newData
  else if h.after cur ≠ null then
    let h := h.set .before (h.after cur) newData
    { h with head := newData }
  else { h with head := newData }

/-- Cutting a free block: the first part is handed out, the rest takes its place in the list. -/
def splitMetadata (h : Heap) (cur : Nat) (newsize : Nat) : Heap :=
  let newData := wrap (cur + structSize + newsize + dataSizeSize)
  let h := h.set .size newData
    (wrapSub (wrapSub (wrapSub (h.size cur) newsize) structSize) dataSizeSize)
  let h := h.set .free newData 1
  let h := h.set .before newData (h.before cur)
  let h := h.set .after newData (h.after cur)
  let h := h.setTag (wrap (cur + structSize + newsize)) newsize
  let h := h.setTag (wrap (newData + structSize + h.size newData)) (h.size newData)
  let h := relistSplit h cur newData
  let h := h.set .size cur newsize
  h.set .free cur 0

/-- `malloc`, with the fuel of its list search. -/
def malloc (fuel : Nat) (h : Heap) (size : Nat) : Option (Nat × Heap) :=
  let h := if h.start = null then { h with start := h.brk } else h
  if size = 0 then some (null, h)
  else
    match findFreeGetAddr fuel h size with
    | none => none
    | some findNode =>
      if findNode = null then
        let (findNode, h) := expandHeap h size
        if findNode = null then some (null, h)
        else some (wrap (findNode + structSize), deleteDataNode h findNode)
      else
        -- The flag is cleared before the block is cut or unlinked.
        let h := h.set .free findNode 0
        if wrapSub (h.size findNode) size > structSize + dataSizeSize then
          some (wrap (findNode + structSize), splitMetadata h findNode size)
        else some (wrap (findNode + structSize), deleteDataNode h findNode)

/-- `calloc` clears as many bytes as it asked `malloc` for. -/
def calloc (fuel : Nat) (h : Heap) (num size : Nat) : Option (Nat × Heap) :=
  match malloc fuel h (wrap (num * size)) with
  | none => none
  | some (newAlloc, h) =>
    if newAlloc = null then some (null, h)
    else some (newAlloc, { h with mem := h.mem.fill newAlloc (wrap (num * size)) 0 })

/-- Joining the freed block with both of its physical neighbours. -/
def mergeBoth (h : Heap) (cur : Nat) : Heap :=
  let h := h.set .size (h.before cur) (h.size (h.before cur) +
    (h.size cur + h.size (h.after cur) + 2 * structSize + 2 * dataSizeSize))
  let h := h.setTag (wrap (h.after cur + structSize + h.size (h.after cur)))
    (h.size (h.before cur))
  let bothNode := h.after cur
  let h := deleteDataNode h bothNode
  let h := h.set .free cur 0
  h.set .free bothNode 0

/-- Joining the freed block with the free block behind it. -/
def mergeWithAfter (h : Heap) (cur : Nat) : Heap :=
  let h := h.set .size cur (h.size cur + (h.size (h.after cur) + structSize + dataSizeSize))
  let h := h.setTag (wrap (h.after cur + structSize + h.size (h.after cur))) (h.size cur)
  let afterData := h.after cur
  let h := h.set .before cur (h.before afterData)
  let h := h.set .after cur (h.after afterData)
  let h := relistSplit h afterData cur
  h.set .free afterData 0

/-- Joining the freed block with the free block in front of it. -/
def mergeWithBefore (h : Heap) (cur : Nat) : Heap :=
  let h := h.set .size (h.before cur)
    (h.size (h.before cur) + (h.size cur + structSize + dataSizeSize))
  let h := h.setTag (wrap (cur + structSize + h.size cur)) (h.size (h.before cur))
  -- The node in front keeps its place in the list.
  h.set .free cur 0

/-- Linking a node in front of the free list, as two of the functions below spell it out. -/
def linkAtHead (h : Heap) (node : Nat) : Heap :=
  if h.head = null then
    let h := { h with head := node }
    let h := h.set .after node null
    h.set .before node null
  else
    let h := h.set .after node h.head
    let h := h.set .before node null
    -- The old first node points back to the new one.
    let h := h.set .before h.head node
    { h with head := node }

/-- Which neighbours are free decides how the freed block joins the list. -/
def mergeGetAddrs (h : Heap) (cur beforeStart afterEnd : Nat) : Heap :=
  if ¬ (afterEnd ≤ h.brk ∧ h.free (h.after cur) ≠ 0) ∧
      ¬ (beforeStart ≥ h.start ∧ h.free (h.before cur) ≠ 0) then
    linkAtHead h cur
  else if (afterEnd ≤ h.brk ∧ h.free (h.after cur) ≠ 0) ∧
      beforeStart ≥ h.start ∧ h.free (h.before cur) ≠ 0 then
    mergeBoth h cur
  else if afterEnd ≤ h.brk ∧ h.free (h.after cur) ≠ 0 then mergeWithAfter h cur
  else if beforeStart ≥ h.start ∧ h.free (h.before cur) ≠ 0 then mergeWithBefore h cur
  else h

/-- `free`: the link fields first hold the physical neighbours, then the list links. -/
def free (h : Heap) (ptr : Nat) : Heap :=
  if ptr = null then h
  else
    let cur := wrapSub ptr structSize
    let h := h.set .free cur 1
    let nodeTailBefore := wrapSub cur dataSizeSize
    let h := h.set .before cur (wrapSub (wrapSub nodeTailBefore (h.tag nodeTailBefore)) structSize)
    let h := h.set .after cur (wrap (cur + structSize + h.size cur + dataSizeSize))
    let beforeStart := h.before cur
    -- Adding to a `data_node*` counts whole headers, so this is 1024 bytes past the neighbour.
    let afterEnd := wrap (h.after cur + structSize * structSize)
    let h := mergeGetAddrs h cur beforeStart afterEnd
    h.set .free cur 1

/-- Blocks up to this size are never cut when they shrink. -/
abbrev reductionLimit : Nat := 1024 * 1024 * 256

/-- Cutting a live block that shrinks; the rest goes to the front of the free list. -/
def splitGetAddrForReduction (h : Heap) (getAddr : Nat) (newSize : Nat) : Nat × Heap :=
  if h.size getAddr ≤ reductionLimit then (getAddr, h)
  else if wrapSub (h.size getAddr) newSize > structSize + dataSizeSize then
    let newNode := wrap (getAddr + structSize + newSize + dataSizeSize)
    let h := h.set .size newNode
      (wrapSub (wrapSub (wrapSub (h.size getAddr) newSize) structSize) dataSizeSize)
    let h := h.set .size getAddr newSize
    let h := h.setTag (wrap (getAddr + structSize + newSize)) newSize
    let h := h.setTag (wrap (newNode + structSize + h.size newNode)) (h.size newNode)
    let h := linkAtHead h newNode
    let h := h.set .free newNode 1
    (getAddr, h.set .free getAddr 0)
  else (getAddr, h)

/-- Shrinking in place. -/
def reduceSize (h : Heap) (ptr : Nat) (newSize : Nat) : Nat × Heap :=
  let getAddr := wrapSub ptr structSize
  let (result, h) := splitGetAddrForReduction h getAddr newSize
  (wrap (result + structSize), h)

/-- Growing by moving to a new block. -/
def increaseSize (fuel : Nat) (h : Heap) (ptr : Nat) (oldSize newSize : Nat) :
    Option (Nat × Heap) :=
  match malloc fuel h newSize with
  | none => none
  | some (newPtr, h) =>
    if newPtr = null then some (null, h)
    else
      -- Only the bytes of the old payload are copied.
      let h := { h with mem := h.mem.copy newPtr ptr oldSize }
      some (newPtr, free h ptr)

/-- `realloc`, with the fuel of the list search when it has to move the block. -/
def realloc (fuel : Nat) (h : Heap) (ptr : Nat) (size : Nat) : Option (Nat × Heap) :=
  if ptr = null then malloc fuel h size
  else if size = 0 then some (null, free h ptr)
  else
    let getAddr := wrapSub ptr structSize
    let oldSize := h.size getAddr
    if oldSize ≥ size then some (reduceSize h ptr size)
    else increaseSize fuel h ptr oldSize size

end SystemProgramming.Malloc
