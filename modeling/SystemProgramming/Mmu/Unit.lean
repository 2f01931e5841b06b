import SystemProgramming.Mmu.Kernel

/-! The memory management unit: accesses through page tables and their cache, and processes. -/

namespace SystemProgramming.Mmu

open Foundations

/-- The segments of a process. -/
inductive SegmentName where
  | stack
  | mmap
  | heap
  | bss
  | data
  | text
  | testing
  deriving DecidableEq, Repr

/-- A segment, with its permissions as flags. -/
structure Segment where
  start : Nat
  stop : Nat
  read : Bool
  write : Bool
  exec : Bool
  growsDown : Bool
  deriving DecidableEq, Repr

/-- The segments of a process by their names. -/
abbrev Segmentations := SegmentName → Segment

/--
What the unit is built with: the two entry layouts, the search for the segment of an address,
and the bound on process ids.
-/
structure Platform where
  directoryEntry : EntryFormat
  tableEntry : EntryFormat
  findSegment : Segmentations → UInt32 → Option Segment
  maxProcessId : Nat

/-- An address is in the segmentations when it has a segment. -/
def Platform.addressInSegmentations (platform : Platform) (segmentations : Segmentations)
    (address : UInt32) : Bool := (platform.findSegment segmentations address).isSome

/-- The unit with the kernel behind it. The cache has its newest pair first. -/
structure State where
  kernel : Kernel
  currPid : Nat
  tlb : List (UInt32 × Nat)
  pageDirectories : Nat → Option Nat
  segmentations : Nat → Option Segmentations
  numTlbMisses : Nat
  numPageFaults : Nat
  numSegmentationFaults : Nat

/-- A new unit, in a kernel with no frame in use and no swap file. -/
def mmuCreate (memory : Memory) : State where
  kernel := ⟨memory, fun _ => none, fun _ => none, []⟩
  currPid := 0
  tlb := []
  pageDirectories _ := none
  segmentations _ := none
  numTlbMisses := 0
  numPageFaults := 0
  numSegmentationFaults := 0

/-- The cache may forget; otherwise it has the entry that was last added for the page. -/
def tlbGetPte (hit : Bool) (st : State) (base : UInt32) : Option Nat :=
  if hit then st.tlb.lookup base else none

def tlbAddPte (st : State) (base : UInt32) (pte : Nat) : State :=
  { st with tlb := (base, pte) :: st.tlb }

def tlbFlush (st : State) : State := { st with tlb := [] }

def mmuTlbMiss (st : State) : State := { st with numTlbMisses := st.numTlbMisses + 1 }

def mmuRaisePageFault (st : State) : State := { st with numPageFaults := st.numPageFaults + 1 }

def mmuRaiseSegmentationFault (st : State) : State :=
  { st with numSegmentationFaults := st.numSegmentationFaults + 1 }

/-- The page base of a virtual address. -/
def addrBase (virtualAddress : UInt32) : UInt32 := virtualAddress &&& 0xFFFFF000

/-- The index of a virtual address in the page directory. -/
def addrPage (virtualAddress : UInt32) : UInt32 := virtualAddress >>> 22

/-- The index of a virtual address in its page table. -/
def addrIdx (virtualAddress : UInt32) : UInt32 := (virtualAddress >>> 12) &&& 0x003FF

/-- The offset of a virtual address in its page. -/
def addrOffset (virtualAddress : UInt32) : UInt32 := virtualAddress &&& 0xFFF

/-- An entry that is made to point to the frame at `address`. -/
def Entry.mapped (entry : Entry) (address : Nat) : Entry :=
  { entry with
    baseAddr := address >>> 12, present := true, readWrite := true, userSupervisor := true }

/-- Making an entry point to the frame at `address`. -/
def mapEntry (format : EntryFormat) (kernel : Kernel) (entry address : Nat) : Kernel :=
  { kernel with
    mem := format.write kernel.mem entry ((format.read kernel.mem entry).mapped address) }

/-- Asking the kernel for a frame and making an entry point to it. -/
def mapFrame (platform : Platform) (format : EntryFormat) (choice : Choice) (kernel : Kernel)
    (request : Option Nat) (entry : Nat) : Option Kernel := do
  let (address, kernel) ← askKernelForFrame platform.tableEntry choice kernel request
  some (mapEntry format kernel entry address)

/-- What kernel and cache decide during one access. -/
structure AccessChoices where
  hit : Bool
  table : Choice
  page : Choice
  deriving DecidableEq, Repr

/-- An access by another process than the last one flushes the cache. -/
def switchTo (st : State) (pid : Nat) : State :=
  -- Entries of the cache carry no process id, so they are worthless after a switch.
  if st.currPid ≠ pid then { tlbFlush st with currPid := pid } else st

/-- A page directory entry that is not present gets a new page table. -/
def ensureTable (platform : Platform) (choice : Choice) (st : State) (pde : Nat) : Option State :=
  if (platform.directoryEntry.read st.kernel.mem pde).present then some st
  else do
    let kernel ← mapFrame platform platform.directoryEntry choice st.kernel none pde
    some { mmuRaisePageFault st with kernel := kernel }

/-- The entry of a virtual address, from the cache or through the page directory. -/
def findPte (platform : Platform) (choices : AccessChoices) (st : State)
    (virtualAddress : UInt32) (pid : Nat) : Option (Nat × State) :=
  match tlbGetPte choices.hit st (addrBase virtualAddress) with
  | some pte => some (pte, st)
  | none => do
    -- Without a page directory the source would follow a null pointer.
    let directory ← st.pageDirectories pid
    let pde := directory + entrySize * (addrPage virtualAddress).toNat
    let st ← ensureTable platform choices.table (mmuTlbMiss st) pde
    -- The directory entry is read again, since `ensureTable` may have written it.
    let pte := (platform.directoryEntry.read st.kernel.mem pde).baseAddr * pageSize +
      entrySize * (addrIdx virtualAddress).toNat
    some (pte, tlbAddPte st (addrBase virtualAddress) pte)

/-- An entry that is not present gets a new frame, and its page is read from disk. -/
def ensurePage (platform : Platform) (choice : Choice) (st : State) (pte : Nat) : Option State :=
  if (platform.tableEntry.read st.kernel.mem pte).present then some st
  else do
    -- The frame is requested for this entry, so the kernel may take it away again later.
    let kernel ← mapFrame platform platform.tableEntry choice st.kernel (some pte) pte
    some { mmuRaisePageFault st with
      kernel := readPageFromDisk platform.tableEntry kernel pte }

/-- How an access ends: in a segmentation fault, or with the bytes that it copied out. -/
inductive Outcome where
  | fault
  | done (bytes : List UInt8)
  deriving DecidableEq, Repr

/-- The physical address of a virtual address whose page is present. -/
def addrPhysical (platform : Platform) (kernel : Kernel) (virtualAddress : UInt32) (pte : Nat) :
    Nat :=
  (addrOffset virtualAddress).toNat ||| (platform.tableEntry.read kernel.mem pte).baseAddr <<< 12

/--
The access that reads and writes share, up to the copy: assertions, context switch, segment
checks, and both faults. The copy gets the entry and the physical address.
-/
def access (platform : Platform) (choices : AccessChoices) (st : State)
    (virtualAddress : UInt32) (pid numBytes : Nat) (permitted : Segment → Bool)
    (copy : Kernel → Nat → Nat → List UInt8 × Kernel) : Option (Outcome × State) := do
  if pid < platform.maxProcessId ∧ numBytes + virtualAddress.toNat % pageSize ≤ pageSize then
    -- The switch comes before the segment check, so a fault switches too.
    let st := switchTo st pid
    let segmentations ← st.segmentations pid
    if platform.addressInSegmentations segmentations virtualAddress = false then
      some (.fault, mmuRaiseSegmentationFault st)
    else
      let (pte, st) ← findPte platform choices st virtualAddress pid
      let st ← ensurePage platform choices.page st pte
      -- The permission is checked only after the page was brought in, as in the source.
      let newSegment ← platform.findSegment segmentations virtualAddress
      if permitted newSegment = false then some (.fault, mmuRaiseSegmentationFault st)
      else
        let copied := copy st.kernel pte (addrPhysical platform st.kernel virtualAddress pte)
        some (.done copied.1, { st with kernel := copied.2 })
  else none

/-- Marking an entry as accessed, and as dirty after a write. -/
def markEntry (platform : Platform) (kernel : Kernel) (pte : Nat) (dirtied : Bool) : Kernel :=
  { kernel with
    mem := platform.tableEntry.write kernel.mem pte
      { platform.tableEntry.read kernel.mem pte with
        accessed := true
        -- A read keeps the dirty flag that an earlier write set.
        dirty := (platform.tableEntry.read kernel.mem pte).dirty || dirtied } }

/-- Copying bytes out of a page. -/
def copyOut (platform : Platform) (numBytes : Nat) (kernel : Kernel) (pte physical : Nat) :
    List UInt8 × Kernel :=
  (kernel.mem.readBytes physical numBytes, markEntry platform kernel pte false)

/-- Copying bytes into a page. -/
def copyIn (platform : Platform) (buffer : List UInt8) (kernel : Kernel) (pte physical : Nat) :
    List UInt8 × Kernel :=
  ([], markEntry platform { kernel with mem := kernel.mem.writeBytes physical buffer } pte true)

def mmuReadFromVirtualAddress (platform : Platform) (choices : AccessChoices) (st : State)
    (virtualAddress : UInt32) (pid numBytes : Nat) : Option (Outcome × State) :=
  access platform choices st virtualAddress pid numBytes Segment.read (copyOut platform numBytes)

def mmuWriteToVirtualAddress (platform : Platform) (choices : AccessChoices) (st : State)
    (virtualAddress : UInt32) (pid : Nat) (buffer : List UInt8) : Option (Outcome × State) :=
  access platform choices st virtualAddress pid buffer.length Segment.write (copyIn platform buffer)

/-- The segments that every process starts with. -/
def initialSegmentations : Segmentations
  | .stack => ⟨0xBFFFE000, 0xC07FE000, true, true, false, true⟩
  | .mmap => ⟨0xC07FE000, 0xC07FE000, true, true, true, true⟩
  | .heap => ⟨0x08072000, 0x08072000, true, true, false, false⟩
  | .bss => ⟨0x0805A000, 0x08072000, true, true, false, false⟩
  | .data => ⟨0x08052000, 0x0805A000, true, true, false, false⟩
  | .text => ⟨0x08048000, 0x08052000, true, false, true, false⟩
  | .testing => ⟨pageSize, 3 * pageSize, true, true, false, false⟩

/-- What the kernel decides while a process is added. -/
structure AddChoices where
  directory : Choice
  table : Choice
  first : Choice
  second : Choice
  deriving DecidableEq, Repr

/-- One of the two pages that a new process starts with. -/
def mapTestPage (platform : Platform) (choice : Choice) (pde i : Nat) (kernel : Kernel) :
    Option Kernel :=
  let pte := (platform.directoryEntry.read kernel.mem pde).baseAddr * pageSize + entrySize * i
  mapFrame platform platform.tableEntry choice kernel (some pte) pte

def mmuAddProcess (platform : Platform) (choices : AddChoices) (st : State) (pid : Nat) :
    Option State := do
  if pid < platform.maxProcessId then
    let (pd, kernel) ← askKernelForFrame platform.tableEntry choices.directory st.kernel none
    let pde := pd + entrySize * 0
    let kernel ← mapFrame platform platform.directoryEntry choices.table kernel none pde
    let kernel ← mapTestPage platform choices.first pde 1 kernel
    let kernel ← mapTestPage platform choices.second pde 2 kernel
    -- The kernel cannot see the tables of the unit, so it does not matter that they come last.
    some { st with
      kernel := kernel
      pageDirectories := Function.update st.pageDirectories pid (some pd)
      segmentations := Function.update st.segmentations pid (some initialSegmentations) }
  else none

/-- One round of the inner loop of a removal. -/
def removeEntry (platform : Platform) (pt : Nat) (kernel : Kernel) (vpn2 : Nat) : Kernel :=
  let pte := pt + entrySize * vpn2
  let entry := platform.tableEntry.read kernel.mem pte
  let kernel := if entry.present then returnFrameToKernel kernel (entry.baseAddr * pageSize)
    else kernel
  -- A page that is in no frame may still have a swap file, so the deletion is unconditional.
  removeSwapFile kernel pte

/-- One round of the outer loop of a removal. -/
def removeTable (platform : Platform) (pd : Nat) (kernel : Kernel) (vpn1 : Nat) : Kernel :=
  let entry := platform.directoryEntry.read kernel.mem (pd + entrySize * vpn1)
  if entry.present then
    -- The table itself goes back after its entries were read.
    let pt := entry.baseAddr * pageSize
    returnFrameToKernel ((List.range numEntries).foldl (removeEntry platform pt) kernel) pt
  else kernel

/-- Giving back the page directory of a process with everything below it. -/
def removeDirectory (platform : Platform) (kernel : Kernel) : Option Nat → Kernel
  | none => kernel
  | some pd =>
    returnFrameToKernel ((List.range numEntries).foldl (removeTable platform pd) kernel) pd

/-- The body of `mmu_remove_process` behind its assertion. -/
def removeProcess (platform : Platform) (st : State) (pid : Nat) : State :=
  let st := { st with
    kernel := removeDirectory platform st.kernel (st.pageDirectories pid)
    pageDirectories := Function.update st.pageDirectories pid none
    segmentations := Function.update st.segmentations pid none }
  -- Only the cache of the running process can hold entries of the removed tables.
  if st.currPid = pid then tlbFlush st else st

def mmuRemoveProcess (platform : Platform) (st : State) (pid : Nat) : Option State :=
  if pid < platform.maxProcessId then some (removeProcess platform st pid) else none

/-- Deleting the unit removes every process and all swap files. -/
def mmuDelete (platform : Platform) (st : State) : State :=
  let st := (List.range platform.maxProcessId).foldl (removeProcess platform) st
  { st with
    kernel := { st.kernel with swap := fun _ => none }
    tlb := [] }

end SystemProgramming.Mmu
