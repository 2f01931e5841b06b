import SystemProgramming.Malloc.Wrapping
import SystemProgramming.Foundations.Faulting

/-! The allocator with every access to memory checked, and with the answers of the kernel left open. -/

namespace SystemProgramming.Malloc

open Foundations Faulting

/-- A program on the heap that stops at an access outside the allowed memory. -/
abbrev Program := Faulting Heap

/-- Which accesses are allowed, by address and width, and what the kernel answers to `sbrk`. -/
structure Machine where
  sbrk : Heap → Nat → Nat × Heap
  allows : Nat → Nat → Bool

namespace Machine

/-- Reading a header field. -/
def get (machine : Machine) (field : Field) (node : Nat) : Program Nat := do
  check (node + field.offset) (machine.allows (node + field.offset) field.width)
  return (← StateT.get).get field node

/-- Writing a header field. -/
def set (machine : Machine) (field : Field) (node value : Nat) : Program Unit := do
  check (node + field.offset) (machine.allows (node + field.offset) field.width)
  modify fun h => h.set field node value

/-- Reading a size tag. -/
def tag (machine : Machine) (address : Nat) : Program Nat := do
  check address (machine.allows address dataSizeSize)
  return (← StateT.get).tag address

/-- Writing a size tag. -/
def setTag (machine : Machine) (address value : Nat) : Program Unit := do
  check address (machine.allows address dataSizeSize)
  modify fun h => h.setTag address value

/-- The static variable `head`, which is always allowed. -/
def head : Program Nat := return (← StateT.get).head

/-- Writing `head`. -/
def setHead (node : Nat) : Program Unit := modify fun h => { h with head := node }

/-- Removing a node from the free list. -/
def deleteDataNode (machine : Machine) (beDeleted : Nat) : Program Unit := do
  if beDeleted = null then return
  let before ← machine.get .before beDeleted
  let after ← machine.get .after beDeleted
  if before = null ∧ after = null then setHead null
  else if before ≠ null ∧ after ≠ null then
    machine.set .before after before
    machine.set .after (← machine.get .before beDeleted) (← machine.get .after beDeleted)
  else if after ≠ null then
    machine.set .before after null
    setHead (← machine.get .after beDeleted)
  else machine.set .after before null

/-- The loop of `find_free_get_addr`. -/
def findFreeLoop (machine : Machine) (size : Nat) : Nat → Nat → Program Nat
  | 0, _ => throw .fuel
  | fuel + 1, current => do
    if current = null then return null
    -- The size is read only of nodes that are free.
    if (← machine.get .free current) ≠ 0 then
      if (← machine.get .size current) ≥ size then return current
    machine.findFreeLoop size fuel (← machine.get .after current)

/-- First fit along the free list. -/
def findFreeGetAddr (machine : Machine) (fuel size : Nat) : Program Nat := do
  machine.findFreeLoop size fuel (← head)

/-- A new block at the break, linked in front of the free list. -/
def expandHeap (machine : Machine) (size : Nat) : Program Nat := do
  let newGetAddr ← modifyGet fun h => machine.sbrk h (totalSize size)
  check newGetAddr (machine.allows newGetAddr 4)
  if (← StateT.get).mem.load newGetAddr 4 = 2 ^ 32 - 1 then return null
  machine.set .size newGetAddr size
  machine.set .free newGetAddr 0
  machine.set .before newGetAddr null
  machine.set .after newGetAddr (← head)
  if (← head) ≠ null then machine.set .before (← head) newGetAddr
  setHead newGetAddr
  machine.setTag (wrap (newGetAddr + structSize + size)) size
  return newGetAddr

/-- Putting `newData` at the place of `cur` in the free list. -/
def relistSplit (machine : Machine) (cur newData : Nat) : Program Unit := do
  let before ← machine.get .before cur
  let after ← machine.get .after cur
  if before ≠ null ∧ after ≠ null then
    machine.set .after before newData
    machine.set .before (← machine.get .after cur) newData
  else if before ≠ null then machine.set .after before newData
  else if after ≠ null then
    machine.set .before after newData
    setHead newData
  else setHead newData

/-- Cutting a free block: the first part is handed out, the rest takes its place in the list. -/
def splitMetadata (machine : Machine) (cur newsize : Nat) : Program Unit := do
  let newData := wrap (cur + structSize + newsize + dataSizeSize)
  machine.set .size newData
    (wrapSub (wrapSub (wrapSub (← machine.get .size cur) newsize) structSize) dataSizeSize)
  machine.set .free newData 1
  machine.set .before newData (← machine.get .before cur)
  machine.set .after newData (← machine.get .after cur)
  machine.setTag (wrap (cur + structSize + newsize)) newsize
  machine.setTag (wrap (newData + structSize + (← machine.get .size newData)))
    (← machine.get .size newData)
  machine.relistSplit cur newData
  machine.set .size cur newsize
  machine.set .free cur 0

/-- The first statement of `malloc`. -/
def begin : Program Unit := modify begun

/-- `malloc`, with the fuel of its list search. -/
def malloc (machine : Machine) (fuel size : Nat) : Program Nat := do
  begin
  if size = 0 then return null
  let findNode ← machine.findFreeGetAddr fuel size
  if findNode = null then
    let findNode ← machine.expandHeap size
    if findNode = null then return null
    machine.deleteDataNode findNode
    return wrap (findNode + structSize)
  machine.set .free findNode 0
  if wrapSub (← machine.get .size findNode) size > structSize + dataSizeSize then
    machine.splitMetadata findNode size
    return wrap (findNode + structSize)
  machine.deleteDataNode findNode
  return wrap (findNode + structSize)

/-- Setting a range of bytes. -/
def memset (machine : Machine) (address : Nat) (byte : UInt8) (width : Nat) : Program Unit := do
  check address (machine.allows address width)
  modify fun h => { h with mem := h.mem.fill address width byte }

/-- Copying a range of bytes. -/
def memcpy (machine : Machine) (target source width : Nat) : Program Unit := do
  check source (machine.allows source width)
  check target (machine.allows target width)
  modify fun h => { h with mem := h.mem.copy target source width }

/-- `calloc` clears as many bytes as it asked `malloc` for. -/
def calloc (machine : Machine) (fuel num size : Nat) : Program Nat := do
  let newAlloc ← machine.malloc fuel (wrap (num * size))
  if newAlloc = null then return null
  machine.memset newAlloc 0 (wrap (num * size))
  return newAlloc

/-- Joining the freed block with both of its physical neighbours. -/
def mergeBoth (machine : Machine) (cur : Nat) : Program Unit := do
  let prior ← machine.get .before cur
  let next ← machine.get .after cur
  machine.set .size prior ((← machine.get .size prior) +
    ((← machine.get .size cur) + (← machine.get .size next) + 2 * structSize + 2 * dataSizeSize))
  let next ← machine.get .after cur
  machine.setTag (wrap (next + structSize + (← machine.get .size next)))
    (← machine.get .size (← machine.get .before cur))
  let bothNode ← machine.get .after cur
  machine.deleteDataNode bothNode
  machine.set .free cur 0
  machine.set .free bothNode 0

/-- Joining the freed block with the free block behind it. -/
def mergeWithAfter (machine : Machine) (cur : Nat) : Program Unit := do
  machine.set .size cur ((← machine.get .size cur) +
    ((← machine.get .size (← machine.get .after cur)) + structSize + dataSizeSize))
  let next ← machine.get .after cur
  machine.setTag (wrap (next + structSize + (← machine.get .size next))) (← machine.get .size cur)
  let afterData ← machine.get .after cur
  machine.set .before cur (← machine.get .before afterData)
  machine.set .after cur (← machine.get .after afterData)
  machine.relistSplit afterData cur
  machine.set .free afterData 0

/-- Joining the freed block with the free block in front of it. -/
def mergeWithBefore (machine : Machine) (cur : Nat) : Program Unit := do
  let prior ← machine.get .before cur
  machine.set .size prior ((← machine.get .size prior) +
    ((← machine.get .size cur) + structSize + dataSizeSize))
  machine.setTag (wrap (cur + structSize + (← machine.get .size cur)))
    (← machine.get .size (← machine.get .before cur))
  machine.set .free cur 0

/-- Linking a node in front of the free list. -/
def linkAtHead (machine : Machine) (node : Nat) : Program Unit := do
  if (← head) = null then
    setHead node
    machine.set .after node null
    machine.set .before node null
  else
    machine.set .after node (← head)
    machine.set .before node null
    machine.set .before (← head) node
    setHead node

/-- The header behind is read only where it ends below the break. -/
def joinsAfter (machine : Machine) (cur afterEnd : Nat) : Program Bool := do
  if afterEnd ≤ (← StateT.get).brk then
    return (← machine.get .free (← machine.get .after cur)) ≠ 0
  return false

/-- The header in front is read only where it lies above the start. -/
def joinsBefore (machine : Machine) (cur beforeStart : Nat) : Program Bool := do
  if beforeStart ≥ (← StateT.get).start then
    return (← machine.get .free (← machine.get .before cur)) ≠ 0
  return false

/-- Which neighbours are free decides how the freed block joins the list. -/
def mergeGetAddrs (machine : Machine) (cur beforeStart afterEnd : Nat) : Program Unit := do
  -- The second test is made only where the first one does not decide.
  let alone ← do
    if ← machine.joinsAfter cur afterEnd then pure false
    else pure !(← machine.joinsBefore cur beforeStart)
  if alone then
    machine.linkAtHead cur
    return
  let both ← do
    if ← machine.joinsAfter cur afterEnd then machine.joinsBefore cur beforeStart else pure false
  if both then machine.mergeBoth cur
  else if ← machine.joinsAfter cur afterEnd then machine.mergeWithAfter cur
  else if ← machine.joinsBefore cur beforeStart then machine.mergeWithBefore cur

/-- `free`, whose first reads are the tag in front of the block and the size of the block. -/
def free (machine : Machine) (ptr : Nat) : Program Unit := do
  if ptr = null then return
  let cur := wrapSub ptr structSize
  machine.set .free cur 1
  let nodeTailBefore := wrapSub cur dataSizeSize
  machine.set .before cur
    (wrapSub (wrapSub nodeTailBefore (← machine.tag nodeTailBefore)) structSize)
  machine.set .after cur (wrap (cur + structSize + (← machine.get .size cur) + dataSizeSize))
  let beforeStart ← machine.get .before cur
  let afterEnd := wrap ((← machine.get .after cur) + structSize * structSize)
  machine.mergeGetAddrs cur beforeStart afterEnd
  machine.set .free cur 1

/-- Cutting a live block that shrinks; the rest goes to the front of the free list. -/
def splitGetAddrForReduction (machine : Machine) (getAddr newSize : Nat) : Program Nat := do
  if (← machine.get .size getAddr) ≤ reductionLimit then return getAddr
  if wrapSub (← machine.get .size getAddr) newSize > structSize + dataSizeSize then
    let newNode := wrap (getAddr + structSize + newSize + dataSizeSize)
    machine.set .size newNode
      (wrapSub (wrapSub (wrapSub (← machine.get .size getAddr) newSize) structSize) dataSizeSize)
    machine.set .size getAddr newSize
    machine.setTag (wrap (getAddr + structSize + newSize)) newSize
    machine.setTag (wrap (newNode + structSize + (← machine.get .size newNode)))
      (← machine.get .size newNode)
    machine.linkAtHead newNode
    machine.set .free newNode 1
    machine.set .free getAddr 0
  return getAddr

/-- Shrinking in place. -/
def reduceSize (machine : Machine) (ptr newSize : Nat) : Program Nat := do
  let getAddr := wrapSub ptr structSize
  return wrap ((← machine.splitGetAddrForReduction getAddr newSize) + structSize)

/-- Growing by moving to a new block. -/
def increaseSize (machine : Machine) (fuel ptr oldSize newSize : Nat) : Program Nat := do
  let newPtr ← machine.malloc fuel newSize
  if newPtr = null then return null
  machine.memcpy newPtr ptr oldSize
  machine.free ptr
  return newPtr

/-- `realloc`, with the fuel of the list search when it has to move the block. -/
def realloc (machine : Machine) (fuel ptr size : Nat) : Program Nat := do
  if ptr = null then return ← machine.malloc fuel size
  if size = 0 then
    machine.free ptr
    return null
  let getAddr := wrapSub ptr structSize
  let oldSize ← machine.get .size getAddr
  if oldSize ≥ size then machine.reduceSize ptr size
  else machine.increaseSize fuel ptr oldSize size

variable {machine : Machine} {h : Heap} {field : Field} {node value address : Nat}

/-- All fields of a header are allowed. -/
def Opens (machine : Machine) (node : Nat) : Prop :=
  ∀ field : Field, machine.allows (node + field.offset) field.width = true

theorem run_get (opens : machine.Opens node) :
    (machine.get field node).run h = .ok (h.get field node, h) := by
  unfold get
  rw [opens field]
  rfl

theorem run_set (opens : machine.Opens node) :
    (machine.set field node value).run h = .ok ((), h.set field node value) := by
  unfold set
  rw [opens field]
  rfl

theorem run_tag (allowed : machine.allows address dataSizeSize = true) :
    (machine.tag address).run h = .ok (h.tag address, h) := by
  unfold tag
  rw [allowed]
  rfl

theorem run_setTag (allowed : machine.allows address dataSizeSize = true) :
    (machine.setTag address value).run h = .ok ((), h.setTag address value) := by
  unfold setTag
  rw [allowed]
  rfl

@[simp] theorem run_head : head.run h = .ok (h.head, h) := rfl

@[simp] theorem run_setHead : (setHead node).run h = .ok ((), { h with head := node }) := rfl

end Machine

end SystemProgramming.Malloc
