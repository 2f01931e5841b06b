import SystemProgramming.Foundations.Blocked
import Mathlib.Logic.Function.Basic

/-! A file system in memory: inodes, data blocks, and the calls that work on them. -/

namespace SystemProgramming.Minixfs

open Foundations

/-- A path or a file name, as the bytes of a C string. -/
abbrev Path := List UInt8

/-- `sizeof(data_block_number)`. -/
abbrev numberSize : Nat := 4

/-- The number of values of a `size_t` and of a `uint64_t`. -/
abbrev sizeRange : Nat := 2 ^ 64

/-- The conversion of a number to an `int`. -/
def toInt (value : Nat) : Int :=
  if value % 2 ^ 32 < 2 ^ 31 then (value % 2 ^ 32 : Nat) else (value % 2 ^ 32 : Nat) - 2 ^ 32

/-- `UNASSIGNED_NODE`, for a block that a file does not have. -/
abbrev unassignedNode : Int := -1

/-- The constants of the file system; the largest file fits in an `off_t`. -/
structure Layout where
  /-- `sizeof(data_block)`. -/
  blockSize : Nat
  numDirectBlocks : Nat
  dataNumber : Nat
  fileNameEntry : Nat
  blockSize_pos : 0 < blockSize
  largest_file : blockSize * (numDirectBlocks + blockSize / numberSize) < 2 ^ 62

/-- An inode; `used` is the mark that tells it from those that hold no file. -/
structure Inode where
  used : Bool
  size : Nat
  direct : Nat → Int
  indirect : Int
  atim : Nat
  mtim : Nat

/-- The file system; data block `n` is the `n`th stretch of `blockSize` bytes of `data`. -/
structure FileSystem where
  dblockCount : Nat
  dataMap : Nat → UInt8
  inodes : Nat → Inode
  data : Memory

/-- The functions of the file system library that the source calls. -/
structure Utils where
  getInode : FileSystem → Path → Option Nat
  /-- The result of the call, and the file system after it. -/
  minixfsMinBlockcount : FileSystem → Path → Int → Int × FileSystem
  isVirtualPath : Path → Option Path
  firstUnusedInode : FileSystem → Option Nat
  /-- The parent, if there is one, and the last component of the path. -/
  parentDirectory : FileSystem → Path → Option Nat × Path
  validFilename : Path → Bool
  /-- The inode that a new file gets, from the parent's and the unused one. -/
  initInode : Inode → Inode → Inode
  addSingleIndirectBlock : FileSystem → Nat → Int × FileSystem
  addDataBlockToInode : FileSystem → Nat → Int × FileSystem
  addDataBlockToIndirectBlock : FileSystem → Int → Int × FileSystem
  makeStringFromDirent : Path → Nat → List UInt8

section Blocks

/-- The data block of a number; following any other number leaves the data area. -/
def blockOf (dblockCount : Nat) (number : Int) : Option Nat :=
  -- A negative number, like `UNASSIGNED_NODE`, lies before the data area.
  if 0 ≤ number ∧ number < dblockCount then some number.toNat else none

/-- An entry of the indirect block. -/
def tableEntry (layout : Layout) (data : Memory) (table indexIndir : Nat) : Int :=
  toInt (data.load (table * layout.blockSize + numberSize * indexIndir) numberSize)

/--
The block that the loops of `minixfs_write` and `minixfs_read` take for a piece of the file:
a direct one, or the one that the indirect block names.
-/
def dataBlock (layout : Layout) (dblockCount : Nat) (inode : Inode) (data : Memory) : BlockMap :=
  fun indexDb =>
    if indexDb ≥ layout.numDirectBlocks then
      -- An entry behind the end of the indirect block belongs to another block.
      if indexDb - layout.numDirectBlocks < layout.blockSize / numberSize then
        match blockOf dblockCount inode.indirect with
        | some table =>
          blockOf dblockCount (tableEntry layout data table (indexDb - layout.numDirectBlocks))
        | none => none
      else none
    else blockOf dblockCount (inode.direct indexDb)

/-- The blocks of a file, in the order of its bytes. -/
def FileSystem.blocks (fs : FileSystem) (layout : Layout) (file : Nat) : BlockMap :=
  dataBlock layout fs.dblockCount (fs.inodes file) fs.data

/-- The bytes of a file, by their positions. -/
def FileSystem.contents (fs : FileSystem) (layout : Layout) (file : Nat) : Memory :=
  (fs.blocks layout file).view layout.blockSize fs.data

/-- The blocks that belong to an inode: those with the bytes of the file, and the indirect one. -/
def FileSystem.Owns (fs : FileSystem) (layout : Layout) (file block : Nat) : Prop :=
  (∃ piece, fs.blocks layout file piece = some block) ∨
    blockOf fs.dblockCount (fs.inodes file).indirect = some block

end Blocks

section Creation

variable (layout : Layout) (utils : Utils)

/-- Changing one inode. -/
def FileSystem.setInode (fs : FileSystem) (file : Nat) (inode : Inode) : FileSystem :=
  { fs with inodes := Function.update fs.inodes file inode }

@[simp] theorem FileSystem.setInode_same (fs : FileSystem) (file : Nat) (inode : Inode) :
    (fs.setInode file inode).inodes file = inode :=
  Function.update_self _ _ _

@[simp] theorem FileSystem.setInode_other {fs : FileSystem} {file other : Nat} {inode : Inode}
    (differ : other ≠ file) : (fs.setInode file inode).inodes other = fs.inodes other :=
  Function.update_of_ne differ _ _

/--
Where `minixfs_create_inode_for_path` puts the new entry of the parent, and the file system after
it found a place; no address if a helper has no block left.
-/
def direntBlock (fs : FileSystem) (parent : Nat) (idb : Int) (offsetDb : Nat) :
    Option (Option Nat × FileSystem) :=
  let inode := fs.inodes parent
  if idb < layout.numDirectBlocks then
    if offsetDb ≠ 0 then
      -- A negative index of a direct block leaves the inode.
      match if 0 ≤ idb then blockOf fs.dblockCount (inode.direct idb.toNat) else none with
      | some block => some (some (block * layout.blockSize), fs)
      | none => none
    else
      -- The entry goes to the start of the data area, not to the block that was added.
      let (added, fs) := utils.addDataBlockToInode fs parent
      if added = -1 then some (none, fs) else some (some 0, fs)
  else
    if offsetDb ≠ 0 then
      match dataBlock layout fs.dblockCount inode fs.data idb.toNat with
      | some block => some (some (block * layout.blockSize), fs)
      | none => none
    else
      -- Again, the entry goes to the start of the data area.
      let (added, fs) := utils.addDataBlockToIndirectBlock fs inode.indirect
      if added = -1 then some (none, fs) else some (some 0, fs)

/-- The indirect block that the parent needs for an entry beyond its direct blocks. -/
def parentIndirect (fs : FileSystem) (parent : Nat) (idb : Int) : Int × FileSystem :=
  if layout.numDirectBlocks ≤ idb ∧ (fs.inodes parent).indirect = unassignedNode then
    utils.addSingleIndirectBlock fs parent
  else (0, fs)

/-- `minixfs_create_inode_for_path`, from where the parent and the name are known. -/
def createIn (clock : Nat → Nat) (fs : FileSystem) (parent : Nat) (name : Path)
    (numUnused : Nat) : Option (Option Nat × FileSystem) :=
  let idb := toInt ((fs.inodes parent).size / layout.blockSize)
  let offsetDb := (fs.inodes parent).size % layout.blockSize
  let added := parentIndirect layout utils fs parent idb
  -- No block was left for the indirect block.
  if added.1 = -1 then some (none, added.2)
  else
    -- The new inode is set up before a place for its entry is found.
    let fs := added.2.setInode numUnused
      (utils.initInode (added.2.inodes parent) (added.2.inodes numUnused))
    match direntBlock layout utils fs parent idb offsetDb with
    | none => none
    | some (none, fs) => some (none, fs)
    | some (some newDb, fs) =>
      -- The parent grows by one entry, whatever the size of the name.
      let inode := fs.inodes parent
      let fs := fs.setInode parent
        { inode with
          size := (inode.size + layout.fileNameEntry) % sizeRange
          mtim := clock 0
          atim := clock 1 }
      some (some numUnused,
        { fs with
          data := fs.data.writeBytes (newDb + offsetDb)
            (utils.makeStringFromDirent name numUnused) })

/--
`minixfs_create_inode_for_path`, with the readings of the clock; nothing is returned where the
function leaves the data area or follows `NULL`.
-/
def minixfsCreateInodeForPath (clock : Nat → Nat) (fs : FileSystem) (path : Path) :
    Option (Option Nat × FileSystem) :=
  match utils.getInode fs path with
  -- The path names a file already.
  | some _ => some (none, fs)
  | none =>
    match utils.firstUnusedInode fs with
    | none => some (none, fs)
    | some numUnused =>
      if utils.validFilename (utils.parentDirectory fs path).2 = false then some (none, fs)
      else
        match (utils.parentDirectory fs path).1 with
        -- The source follows the parent without looking at it.
        | none => none
        | some parent =>
          createIn layout utils clock fs parent (utils.parentDirectory fs path).2 numUnused

end Creation

section VirtualFiles

/-- `block_info_string`. -/
def blockInfoString (layout : Layout) (usedNum : Nat) : List UInt8 :=
  ("Free blocks: " ++ toString ((layout.dataNumber : Int) - usedNum) ++ "\nUsed blocks: " ++
    toString usedNum ++ "\n").toUTF8.toList

/-- What a read returns, the file system after it, the offset it leaves, and the bytes it copied. -/
structure ReadResult where
  returned : Int
  fs : FileSystem
  off : Nat
  buf : List UInt8

/-- `minixfs_virtual_read`. -/
def minixfsVirtualRead (layout : Layout) (fs : FileSystem) (path : Path) (count off : Nat) :
    ReadResult :=
  if path = "info".toUTF8.toList then
    -- A block is used if its byte in the map is not zero.
    let usedNum := (List.range fs.dblockCount).countP fun block => fs.dataMap block ≠ 0
    let blockInfo := blockInfoString layout usedNum
    let tail := min ((off + count) % sizeRange) blockInfo.length
    if tail ≤ off then ⟨0, fs, off, []⟩
    -- The offset is moved by `tail` before it is subtracted from it.
    else ⟨(tail : Int) - (off + tail : Nat), fs, off + tail, (blockInfo.drop off).take (tail - off)⟩
  else ⟨-1, fs, off, []⟩

end VirtualFiles

section Transfers

variable (layout : Layout) (utils : Utils)

/-- The loop of `minixfs_write` over the bytes that are left: the data after it and the offset. -/
def writeBlocks (dblockCount : Nat) (inode : Inode) :
    Nat → Memory → List UInt8 → Nat → Nat → Nat → Option (Memory × Nat)
  | _, data, [], _, _, off => some (data, off)
  | 0, _, _ :: _, _, _, _ => none
  | fuel + 1, data, byte :: rest, indexDb, offsetDb, off =>
    match dataBlock layout dblockCount inode data indexDb with
    | none => none
    | some block =>
      -- A piece ends with its block or with the buffer.
      let needWrite := min (layout.blockSize - offsetDb) (byte :: rest).length
      writeBlocks dblockCount inode fuel
        (data.writeBytes (block * layout.blockSize + offsetDb) ((byte :: rest).take needWrite))
        ((byte :: rest).drop needWrite) (indexDb + 1) 0 (off + needWrite)

/-- The loop of `minixfs_read` over the bytes that are left: those it copied, and the offset. -/
def readBlocks (dblockCount : Nat) (inode : Inode) (data : Memory) :
    Nat → Nat → Nat → Nat → Nat → Option (List UInt8 × Nat)
  | _, 0, _, _, off => some ([], off)
  | 0, _ + 1, _, _, _ => none
  | fuel + 1, fillRead + 1, indexDb, offsetDb, off =>
    match dataBlock layout dblockCount inode data indexDb with
    | none => none
    | some block =>
      -- A piece ends with its block or with the range.
      let needWrite := min (layout.blockSize - offsetDb) (fillRead + 1)
      match readBlocks dblockCount inode data fuel (fillRead + 1 - needWrite) (indexDb + 1) 0
          (off + needWrite) with
      | none => none
      | some (buf, off) =>
        some (data.readBytes (block * layout.blockSize + offsetDb) needWrite ++ buf, off)

/-- What a write returns, the file system after it, and the offset it leaves. -/
structure WriteResult where
  returned : Int
  fs : FileSystem
  off : Nat

/-- The inode that `minixfs_write` works on: the one of the path, or a new one. -/
def openForWrite (clock : Nat → Nat) (fs : FileSystem) (path : Path) :
    Option (Option Nat × FileSystem) :=
  match utils.getInode fs path with
  | some file => some (some file, fs)
  -- A file that is not there is created by the write.
  | none => minixfsCreateInodeForPath layout utils clock fs path

/-- The file system after `count` bytes of a file were written: its data, its size, its times. -/
def FileSystem.stored (fs : FileSystem) (clock : Nat → Nat) (file count : Nat) (data : Memory) :
    FileSystem :=
  -- The source adds what was written, wherever it was written.
  { fs.setInode file
      { fs.inodes file with
        size := ((fs.inodes file).size + count) % sizeRange
        mtim := clock 2
        atim := clock 3 } with
    data := data }

/-- `(int) ((*off + count) / sizeof(data_block))`, to which one is added. -/
def lastBlock (off count : Nat) : Int := toInt ((off + count) % sizeRange / layout.blockSize)

/-- `minixfs_write` of the bytes in `buf`; the loop needs no more rounds than there are bytes. -/
def minixfsWrite (clock : Nat → Nat) (fs : FileSystem) (path : Path) (buf : List UInt8)
    (off : Nat) : Option WriteResult :=
  match openForWrite layout utils clock fs path with
  | none => none
  | some (newInode, fs) =>
    -- One more than the largest `int` is no `int`.
    if lastBlock layout off buf.length = 2 ^ 31 - 1 then none
    else
      -- The blocks are reserved before the inode is looked at.
      match utils.minixfsMinBlockcount fs path (lastBlock layout off buf.length + 1) with
      | (inodeCreate, fs) =>
        match newInode with
        | none => some ⟨-1, fs, off⟩
        | some file =>
          if inodeCreate ≠ 0 then some ⟨-1, fs, off⟩
          else
            match writeBlocks layout fs.dblockCount (fs.inodes file) buf.length fs.data buf
                (off / layout.blockSize) (off % layout.blockSize) off with
            | none => none
            | some (data, newOff) =>
              -- The loop has written all bytes.
              let allWritten := buf.length
              some ⟨allWritten, fs.stored clock file allWritten data, newOff⟩

/-- `minixfs_read` of at most `count` bytes. -/
def minixfsRead (clock : Nat → Nat) (fs : FileSystem) (path : Path) (count off : Nat) :
    Option ReadResult :=
  match utils.isVirtualPath path with
  | some virtualPath => some (minixfsVirtualRead layout fs virtualPath count off)
  | none =>
    match utils.getInode fs path with
    | none => some ⟨-1, fs, off, []⟩
    | some file =>
      let inode := fs.inodes file
      -- A read ends at the size of the file.
      let tail := min inode.size ((off + count) % sizeRange)
      -- An offset at the end of the file or behind it reads nothing.
      if tail ≤ off then some ⟨0, fs, off, []⟩
      else
        match readBlocks layout fs.dblockCount inode fs.data (tail - off) (tail - off)
            (off / layout.blockSize) (off % layout.blockSize) off with
        | none => none
        | some (buf, newOff) =>
          some ⟨(tail - off : Nat), fs.setInode file { inode with atim := clock 0 }, newOff, buf⟩

end Transfers

end SystemProgramming.Minixfs
