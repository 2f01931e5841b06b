import SystemProgramming.Foundations.ByteMemory
import Mathlib.Logic.Function.Basic

/-! Physical frames: entries in memory, and what the kernel does when it is asked for a frame. -/

namespace SystemProgramming.Mmu

open Foundations

/-- `PAGE_SIZE`: a page, and the frame that holds it. -/
abbrev pageSize : Nat := 4096

/-- `NUM_ENTRIES`: how many entries a page directory or a page table has. -/
abbrev numEntries : Nat := 1024

/-- The width of an entry in bytes. -/
abbrev entrySize : Nat := 4

/-- The fields of a page directory entry or page table entry that the program sets and reads. -/
structure Entry where
  present : Bool
  readWrite : Bool
  userSupervisor : Bool
  accessed : Bool
  dirty : Bool
  baseAddr : Nat
  deriving DecidableEq, Repr

/--
How the fields lie in the four bytes of an entry; the layout itself is not part of the program.
Assigning to fields may keep other bits of the old word, and an entry of zero bytes is not present.
-/
structure EntryFormat where
  fields : Nat → Entry
  assign : Nat → Entry → Nat
  assign_lt : ∀ word entry, assign word entry < 2 ^ 32
  fields_assign : ∀ word entry, entry.baseAddr < 2 ^ 20 → fields (assign word entry) = entry
  zero_absent : (fields 0).present = false
  baseAddr_lt : ∀ word, (fields word).baseAddr < 2 ^ 20

namespace EntryFormat

variable {format : EntryFormat} {memory other : Memory} {address place : Nat} {entry : Entry}

/-- Reading an entry. -/
def read (format : EntryFormat) (memory : Memory) (address : Nat) : Entry :=
  format.fields (memory.load address entrySize)

/-- Assigning to the fields of an entry. -/
def write (format : EntryFormat) (memory : Memory) (address : Nat) (entry : Entry) : Memory :=
  memory.store address entrySize (format.assign (memory.load address entrySize) entry)

/-- The frame that an entry points to when it is present. -/
def target (format : EntryFormat) (memory : Memory) (address : Nat) : Option Nat :=
  if (format.read memory address).present then some (format.read memory address).baseAddr else none

/-- An entry depends on its own four bytes only. -/
theorem read_congr (same : ∀ a, address ≤ a → a < address + entrySize → other a = memory a) :
    format.read other address = format.read memory address := by
  simp only [read, Memory.load_congr same]

/-- What was assigned to an entry is read back. -/
theorem read_write_same (small : entry.baseAddr < 2 ^ 20) :
    format.read (format.write memory address entry) address = entry := by
  -- The assigned word fits in four bytes, so loading it back loses nothing.
  have fits : format.assign (memory.load address entrySize) entry % 256 ^ entrySize =
      format.assign (memory.load address entrySize) entry :=
    Nat.mod_eq_of_lt (format.assign_lt _ _)
  rw [read, write, Memory.load_store_same, fits, format.fields_assign _ _ small]

/-- Assigning to one entry changes no byte outside it. -/
theorem write_of_outside (outside : place < address ∨ address + entrySize ≤ place) :
    format.write memory address entry place = memory place :=
  Memory.store_of_outside outside

/-- The target of an entry depends on its own four bytes only. -/
theorem target_congr (same : ∀ a, address ≤ a → a < address + entrySize → other a = memory a) :
    format.target other address = format.target memory address := by
  simp only [target, read_congr same]

/-- A present entry of a small frame points to that frame. -/
theorem target_write_same (small : entry.baseAddr < 2 ^ 20) :
    format.target (format.write memory address entry) address =
      if entry.present then some entry.baseAddr else none := by
  simp only [target, read_write_same small]

/-- An entry of zero bytes points nowhere. -/
theorem target_of_zeros (zeros : ∀ a, address ≤ a → a < address + entrySize → memory a = 0) :
    format.target memory address = none := by
  -- Four zero bytes are the word zero, and the layout says that it is not present.
  have absent : (format.read memory address).present = false := by
    rw [read, Memory.load_zero zeros, format.zero_absent]
  rw [target, absent]
  rfl

/-- An entry points to its base address, and only when it is present. -/
theorem target_eq_some {frame : Nat} : format.target memory address = some frame ↔
    (format.read memory address).present = true ∧ (format.read memory address).baseAddr = frame := by
  rw [target]
  split <;> simp_all

/-- An absent entry points nowhere. -/
theorem target_of_absent (absent : ¬ (format.read memory address).present = true) :
    format.target memory address = none := if_neg absent

end EntryFormat

/--
The kernel: physical memory, frames, and swap files. A frame is unused, or obtained for no entry,
or obtained for the page table entry at an address; a swap file belongs to the address of an
entry; and `returned` lists the frames that were given back, in order.
-/
structure Kernel where
  mem : Memory
  frames : Nat → Option (Option Nat)
  swap : Nat → Option (List UInt8)
  returned : List Nat

/-- What the kernel decides when it is asked for a frame: whom it evicts, and what it hands out. -/
structure Choice where
  evicted : Option Nat
  frame : Nat
  deriving DecidableEq, Repr

namespace Kernel

/-- The page of an entry is saved in its swap file, and neither the entry nor the frame keeps it. -/
def swapOut (tableEntry : EntryFormat) (kernel : Kernel) (frame pte : Nat) : Kernel :=
  { kernel with
    mem := tableEntry.write kernel.mem pte { tableEntry.read kernel.mem pte with present := false }
    frames := Function.update kernel.frames frame none
    swap := Function.update kernel.swap pte
      (some (kernel.mem.readBytes (frame * pageSize) pageSize)) }

/-- Only a frame that was requested for an entry can be evicted. -/
def evict (tableEntry : EntryFormat) (kernel : Kernel) (frame : Nat) : Option Kernel :=
  match kernel.frames frame with
  | some (some pte) => some (kernel.swapOut tableEntry frame pte)
  | _ => none

/-- The kernel may evict one frame first. -/
def makeRoom (tableEntry : EntryFormat) (kernel : Kernel) : Option Nat → Option Kernel
  | none => some kernel
  | some frame => kernel.evict tableEntry frame

/-- Handing out a frame: it is cleared, and remembered with the entry it was requested for. -/
def handOut (kernel : Kernel) (frame : Nat) (pte : Option Nat) : Kernel :=
  { kernel with
    mem := kernel.mem.fill (frame * pageSize) pageSize 0
    frames := Function.update kernel.frames frame (some pte) }

end Kernel

/-- The address of a frame that was unused, after the kernel made room if it had to. -/
def askKernelForFrame (tableEntry : EntryFormat) (choice : Choice) (kernel : Kernel)
    (pte : Option Nat) : Option (Nat × Kernel) := do
  let kernel ← kernel.makeRoom tableEntry choice.evicted
  -- The base address field of an entry has twenty bits, which bounds the frame number.
  if choice.frame < 2 ^ 20 ∧ kernel.frames choice.frame = none then
    some (choice.frame * pageSize, kernel.handOut choice.frame pte)
  else none

/-- Restoring the page of an entry from its swap file, if there is one. -/
def readPageFromDisk (tableEntry : EntryFormat) (kernel : Kernel) (pte : Nat) : Kernel :=
  match kernel.swap pte with
  | none => kernel
  | some page =>
    { kernel with
      mem := kernel.mem.writeBytes ((tableEntry.read kernel.mem pte).baseAddr * pageSize) page }

/-- Giving a frame back. -/
def returnFrameToKernel (kernel : Kernel) (address : Nat) : Kernel :=
  { kernel with
    frames := Function.update kernel.frames (address / pageSize) none
    returned := kernel.returned ++ [address / pageSize] }

/-- Deleting the swap file of an entry, if there is one. -/
def removeSwapFile (kernel : Kernel) (pte : Nat) : Kernel :=
  { kernel with swap := Function.update kernel.swap pte none }

end SystemProgramming.Mmu
