import SystemProgramming.Minixfs.Transfer
import Mathlib.Logic.Relation

/-! What a write leaves for the reads that follow it, and what it does not touch. -/

namespace SystemProgramming.Minixfs

open Foundations

namespace FileSystem

/-- The bytes of a data block are the same before and after. -/
def Keeps (before after : FileSystem) (layout : Layout) (block : Nat) : Prop :=
  ∀ a, a / layout.blockSize = block → after.data a = before.data a

/-- The blocks of a file are different ones, and no other file that is in use has one of them. -/
structure Exclusive (fs : FileSystem) (layout : Layout) (file : Nat) : Prop where
  apart : Apart layout fs.dblockCount (fs.inodes file) fs.data
  alone : ∀ other, other ≠ file → (fs.inodes other).used = true →
    ∀ block, fs.Owns layout file block → ¬ fs.Owns layout other block

/-- Every byte of a file has a block. -/
def Covered (fs : FileSystem) (layout : Layout) (file : Nat) : Prop :=
  ∀ position, position < (fs.inodes file).size →
    (fs.blocks layout file (position / layout.blockSize)).isSome

/-- A file with blocks of its own for all of its bytes. -/
structure WellFormed (fs : FileSystem) (layout : Layout) (file : Nat) : Prop where
  exclusive : fs.Exclusive layout file
  covered : fs.Covered layout file

end FileSystem

/-- What it means to reserve blocks for a file: it has enough of them, and nothing else changes. -/
structure Reserved (layout : Layout) (file : Nat) (count : Int) (before after : FileSystem) :
    Prop where
  exclusive : after.Exclusive layout file
  enough : ∀ piece : Nat, piece < count → (after.blocks layout file piece).isSome
  kept : ∀ piece block, before.blocks layout file piece = some block →
    after.blocks layout file piece = some block ∧ before.Keeps after layout block
  size : (after.inodes file).size = (before.inodes file).size
  used : (after.inodes file).used = (before.inodes file).used
  area : after.dblockCount = before.dblockCount
  others : ∀ other, other ≠ file → (before.inodes other).used = true →
    after.inodes other = before.inodes other ∧
      ∀ block, before.Owns layout other block → before.Keeps after layout block

/-- `minixfs_min_blockcount` reserves the blocks that it is asked for, when it returns 0. -/
def Utils.Reserves (utils : Utils) (layout : Layout) : Prop :=
  ∀ fs path file count after, utils.getInode fs path = some file → fs.Exclusive layout file →
    utils.minixfsMinBlockcount fs path count = (0, after) → Reserved layout file count fs after

variable {layout : Layout} {utils : Utils} {clock : Nat → Nat} {path : Path} {buf : List UInt8}
  {file other block piece position count off newOff : Nat} {inode changed : Inode}
  {fs opened reserved after later : FileSystem} {data : Memory}

/-- The blocks of a file depend only on the block numbers in its inode. -/
theorem dataBlock_inode_congr {dblockCount : Nat} (direct : changed.direct = inode.direct)
    (indirect : changed.indirect = inode.indirect) :
    dataBlock layout dblockCount changed data = dataBlock layout dblockCount inode data := by
  -- The loops look at the block numbers of an inode and at nothing else.
  unfold dataBlock
  rw [direct, indirect]

/-- A position with a block lies below the largest file size. -/
theorem position_lt (held : (fs.blocks layout file (position / layout.blockSize)).isSome) :
    position < 2 ^ 62 := by
  -- The piece of the position is one of those that block numbers can name.
  obtain ⟨block, found⟩ := Option.isSome_iff_exists.mp held
  have below := (Nat.div_lt_iff_lt_mul layout.blockSize_pos).mp (piece_lt found)
  rw [Nat.mul_comm] at below
  exact Nat.lt_trans below layout.largest_file

/-- Where all positions of a range have blocks, the range ends below the largest file size. -/
theorem range_le {start : Nat} (held : ∀ position, start ≤ position → position < start + count →
    (fs.blocks layout file (position / layout.blockSize)).isSome) :
    count = 0 ∨ start + count ≤ 2 ^ 62 := by
  -- The last position of the range is the one to look at.
  rcases Nat.eq_zero_or_pos count with rfl | positive
  · exact .inl rfl
  · have last := position_lt (held (start + count - 1) (by omega) (by omega))
    exact .inr (by omega)

/-- What a write that succeeds has done: it reserved blocks and went through the whole loop. -/
theorem minixfsWrite_eq_some
    (named : openForWrite layout utils clock fs path = some (some file, opened))
    (written : minixfsWrite layout utils clock fs path buf off =
      some ⟨buf.length, after, newOff⟩) :
    ∃ reserved data,
      utils.minixfsMinBlockcount opened path (lastBlock layout off buf.length + 1) = (0, reserved) ∧
      writeBlocks layout reserved.dblockCount (reserved.inodes file) buf.length reserved.data buf
        (off / layout.blockSize) (off % layout.blockSize) off = some (data, newOff) ∧
      after = reserved.stored clock file buf.length data := by
  -- Every other way through the function returns -1 or nothing.
  rcases asked : utils.minixfsMinBlockcount opened path (lastBlock layout off buf.length + 1)
    with ⟨inodeCreate, reserved⟩
  simp only [minixfsWrite, named, asked] at written
  split at written
  · cases written
  · split at written
    · have impossible : (-1 : Int) = buf.length :=
        congrArg WriteResult.returned (Option.some.inj written)
      omega
    next success =>
      split at written
      · cases written
      next data moved looped =>
        obtain rfl : inodeCreate = 0 := by simpa using success
        have same := Option.some.inj written
        injection same with _ sameFs sameOff
        exact ⟨reserved, data, rfl, sameOff ▸ looped, sameFs.symm⟩

/-- Numbers that an `int` can hold are converted to themselves. -/
theorem toInt_eq {value : Nat} (small : value < 2 ^ 31) : toInt value = value := by
  have fits : value % 2 ^ 32 = value := Nat.mod_eq_of_lt (by omega)
  rw [toInt, fits, if_pos small]

/-- The last block of a range has its number, as long as an `int` can hold it. -/
theorem lastBlock_eq (small : (off + count) / layout.blockSize < 2 ^ 31)
    (fits : off + count < sizeRange) :
    lastBlock layout off count = ((off + count) / layout.blockSize : Nat) := by
  rw [lastBlock, Nat.mod_eq_of_lt fits, toInt_eq small]

/-- A write succeeds when the blocks it needs are reserved. -/
theorem minixfsWrite_of_reserved (resolves : utils.getInode fs path = some file)
    (promise : Reserved layout file (lastBlock layout off buf.length + 1) fs reserved)
    (small : (off + buf.length) / layout.blockSize < 2 ^ 31 - 1)
    (fits : off + buf.length < sizeRange)
    (asked : utils.minixfsMinBlockcount fs path (lastBlock layout off buf.length + 1) =
      (0, reserved)) :
    ∃ after, minixfsWrite layout utils clock fs path buf off =
      some ⟨buf.length, after, off + buf.length⟩ := by
  have last : lastBlock layout off buf.length = ((off + buf.length) / layout.blockSize : Nat) :=
    lastBlock_eq (by omega) fits
  -- Every position of the range lies in one of the blocks that were reserved.
  have inside := Nat.mod_lt off layout.blockSize_pos
  have loop := @writeBlocks_done layout reserved.dblockCount (off / layout.blockSize)
    (off % layout.blockSize) off buf.length (reserved.inodes file) reserved.data buf
    promise.exclusive.apart inside (Nat.le_refl _)
  rw [Nat.div_add_mod'] at loop
  have held : ∀ position, off ≤ position → position < off + buf.length →
      (reserved.blocks layout file (position / layout.blockSize)).isSome := by
    intro position _ upper
    apply promise.enough
    have below : position / layout.blockSize ≤ (off + buf.length) / layout.blockSize :=
      Nat.div_le_div_right (Nat.le_of_lt upper)
    rw [last]
    omega
  obtain ⟨⟨data, newOff⟩, looped⟩ := loop held
  obtain ⟨-, moved⟩ := writeBlocks_wrote promise.exclusive.apart inside looped
  -- The number of blocks that is asked for is an `int`.
  have fine : ¬ lastBlock layout off buf.length = 2 ^ 31 - 1 := by
    rw [last]
    omega
  simp only [minixfsWrite, openForWrite, resolves, asked, looped, if_neg fine, moved]
  exact ⟨_, rfl⟩

/-- A write succeeds when the blocks it needs can be reserved. -/
theorem minixfsWrite_done (reserves : utils.Reserves layout)
    (resolves : utils.getInode fs path = some file) (exclusive : fs.Exclusive layout file)
    (small : (off + buf.length) / layout.blockSize < 2 ^ 31 - 1)
    (fits : off + buf.length < sizeRange)
    (asked : utils.minixfsMinBlockcount fs path (lastBlock layout off buf.length + 1) =
      (0, reserved)) :
    ∃ after, minixfsWrite layout utils clock fs path buf off =
      some ⟨buf.length, after, off + buf.length⟩ :=
  minixfsWrite_of_reserved resolves (reserves _ _ _ _ _ resolves exclusive asked) small fits asked

/-- Files whose block numbers and indirect blocks are the same have the same blocks. -/
theorem blocks_congr (area : later.dblockCount = fs.dblockCount)
    (direct : (later.inodes file).direct = (fs.inodes file).direct)
    (indirect : (later.inodes file).indirect = (fs.inodes file).indirect)
    (keeps : ∀ table, blockOf fs.dblockCount (fs.inodes file).indirect = some table →
      fs.Keeps later layout table) :
    later.blocks layout file = fs.blocks layout file := by
  -- The entries of the indirect block are the same, since its bytes are.
  rw [FileSystem.blocks, FileSystem.blocks, dataBlock_inode_congr direct indirect, area]
  funext piece
  exact dataBlock_congr keeps

/-- A file that is left alone keeps its blocks. -/
theorem owns_congr (area : later.dblockCount = fs.dblockCount)
    (same : later.inodes other = fs.inodes other)
    (keeps : ∀ table, blockOf fs.dblockCount (fs.inodes other).indirect = some table →
      fs.Keeps later layout table) :
    later.Owns layout other block ↔ fs.Owns layout other block := by
  -- Its inode is the same, and so are the entries of its indirect block.
  have blocks : later.blocks layout other = fs.blocks layout other :=
    blocks_congr area (by rw [same]) (by rw [same]) keeps
  rw [FileSystem.Owns, FileSystem.Owns, blocks, area, same]

/-- What a successful write does to the file system, between the reservation and the end. -/
structure Written (layout : Layout) (utils : Utils) (clock : Nat → Nat) (path : Path)
    (file off : Nat) (buf : List UInt8) (before reserved after : FileSystem) : Prop where
  asked : utils.minixfsMinBlockcount before path (lastBlock layout off buf.length + 1) =
    (0, reserved)
  promised : Reserved layout file (lastBlock layout off buf.length + 1) before reserved
  wrote : Wrote layout reserved.dblockCount (reserved.inodes file) reserved.data off buf after.data
  stored : after = reserved.stored clock file buf.length after.data

/-- A successful write, whose blocks were reserved, in terms of the bytes and blocks of the file. -/
theorem written_of_reserved
    (promise : ∀ reserved,
      utils.minixfsMinBlockcount opened path (lastBlock layout off buf.length + 1) = (0, reserved) →
      Reserved layout file (lastBlock layout off buf.length + 1) opened reserved)
    (named : openForWrite layout utils clock fs path = some (some file, opened))
    (written : minixfsWrite layout utils clock fs path buf off =
      some ⟨buf.length, after, newOff⟩) :
    (∃ reserved, Written layout utils clock path file off buf opened reserved after) ∧
      newOff = off + buf.length := by
  obtain ⟨reserved, data, asked, looped, rfl⟩ := minixfsWrite_eq_some named written
  have promised := promise reserved asked
  -- The loop starts in the block of the offset.
  have inside := Nat.mod_lt off layout.blockSize_pos
  obtain ⟨wrote, moved⟩ := writeBlocks_wrote promised.exclusive.apart inside looped
  rw [Nat.div_add_mod'] at wrote
  exact ⟨⟨reserved, asked, promised, wrote, rfl⟩, moved⟩

/-- A successful write in terms of the bytes and blocks of the file. -/
theorem written_of_minixfsWrite (reserves : utils.Reserves layout)
    (named : openForWrite layout utils clock fs path = some (some file, opened))
    (resolves : utils.getInode opened path = some file)
    (exclusive : opened.Exclusive layout file)
    (written : minixfsWrite layout utils clock fs path buf off =
      some ⟨buf.length, after, newOff⟩) :
    (∃ reserved, Written layout utils clock path file off buf opened reserved after) ∧
      newOff = off + buf.length :=
  written_of_reserved (fun _ asked => reserves _ _ _ _ _ resolves exclusive asked) named written

namespace Written

/-- The file keeps its block numbers while its bytes are written. -/
theorem blocks (written : Written layout utils clock path file off buf fs reserved after) :
    after.blocks layout file = reserved.blocks layout file := by
  -- What is stored at the end is the size and the times, not a block number.
  rw [written.stored, FileSystem.blocks]
  refine Eq.trans ?_ written.wrote.blocks
  exact dataBlock_inode_congr (by simp [FileSystem.stored, FileSystem.setInode])
    (by simp [FileSystem.stored, FileSystem.setInode])

/-- The bytes of the file are those that were reserved, with the written ones in their place. -/
theorem contents (written : Written layout utils clock path file off buf fs reserved after) :
    after.contents layout file = (reserved.contents layout file).writeBytes off buf := by
  -- The loop has written the view of the file that the reservation left.
  have view := written.wrote.view
  rw [written.wrote.blocks] at view
  rw [FileSystem.contents, written.blocks]
  exact view

/-- The size grows by what was written, in the arithmetic of a `uint64_t`. -/
theorem size (written : Written layout utils clock path file off buf fs reserved after) :
    (after.inodes file).size = ((fs.inodes file).size + buf.length) % sizeRange := by
  -- The reservation keeps the size, and the end of the function adds what was written.
  rw [written.stored, ← written.promised.size]
  simp [FileSystem.stored, FileSystem.setInode]

/-- The file stays in use. -/
theorem used (written : Written layout utils clock path file off buf fs reserved after) :
    (after.inodes file).used = (fs.inodes file).used := by
  rw [written.stored, ← written.promised.used]
  simp [FileSystem.stored, FileSystem.setInode]

/-- Inodes of other files stay as they were reserved. -/
theorem inodes (written : Written layout utils clock path file off buf fs reserved after)
    (differ : other ≠ file) : after.inodes other = reserved.inodes other := by
  rw [written.stored]
  simp [FileSystem.stored, FileSystem.setInode, differ]

/-- The data area keeps its size. -/
theorem area (written : Written layout utils clock path file off buf fs reserved after) :
    after.dblockCount = reserved.dblockCount := by
  rw [written.stored]
  rfl

/-- A block without bytes of the file is not written. -/
theorem keeps (written : Written layout utils clock path file off buf fs reserved after)
    (apart : ∀ piece, reserved.blocks layout file piece ≠ some block) :
    reserved.Keeps after layout block := by
  -- The loop writes only to blocks with bytes of the file.
  intro a inside
  apply written.wrote.outside
  rw [inside]
  exact apart

/-- The blocks of another file that is in use are neither reserved nor written. -/
theorem others (written : Written layout utils clock path file off buf fs reserved after)
    (differ : other ≠ file) (used : (fs.inodes other).used = true)
    (owned : fs.Owns layout other block) :
    reserved.Owns layout other block ∧ reserved.Keeps after layout block := by
  obtain ⟨inode, kept⟩ := written.promised.others other differ used
  -- The indirect block of the other file is one of its blocks, so its entries are the same.
  have still : reserved.Owns layout other block :=
    (owns_congr written.promised.area inode fun table found => kept table (.inr found)).mpr owned
  -- No block of the written file belongs to the other one.
  refine ⟨still, written.keeps fun piece same => ?_⟩
  exact written.promised.exclusive.alone other differ (by rw [inode]; exact used) block
    (.inl ⟨piece, same⟩) still

/-- The positions that were written have blocks. -/
theorem held (written : Written layout utils clock path file off buf fs reserved after)
    (lower : off ≤ position) (upper : position < off + buf.length) :
    (after.blocks layout file (position / layout.blockSize)).isSome := by
  -- The loop has found a block for each position that it wrote.
  rw [written.blocks]
  exact written.wrote.held position lower upper

/-- The positions that had blocks still have the same ones. -/
theorem kept (written : Written layout utils clock path file off buf fs reserved after)
    (before : fs.blocks layout file piece = some block) :
    after.blocks layout file piece = some block := by
  rw [written.blocks]
  exact (written.promised.kept piece block before).1

/-- A written range ends below the largest file size. -/
theorem range (written : Written layout utils clock path file off buf fs reserved after) :
    buf.length = 0 ∨ off + buf.length ≤ 2 ^ 62 :=
  range_le fun _ lower upper => written.held lower upper

end Written

/-- The two file systems hold the same bytes in the same blocks; only times may differ. -/
structure SameStorage (before after : FileSystem) : Prop where
  area : after.dblockCount = before.dblockCount
  data : after.data = before.data
  size : ∀ file, (after.inodes file).size = (before.inodes file).size
  direct : ∀ file, (after.inodes file).direct = (before.inodes file).direct
  indirect : ∀ file, (after.inodes file).indirect = (before.inodes file).indirect

namespace SameStorage

/-- A file system has the storage it has. -/
theorem refl (fs : FileSystem) : SameStorage fs fs :=
  ⟨rfl, rfl, fun _ => rfl, fun _ => rfl, fun _ => rfl⟩

/-- Storage that stays the same twice has stayed the same. -/
theorem trans {middle : FileSystem} (first : SameStorage fs middle)
    (second : SameStorage middle later) : SameStorage fs later where
  area := second.area.trans first.area
  data := second.data.trans first.data
  size file := (second.size file).trans (first.size file)
  direct file := (second.direct file).trans (first.direct file)
  indirect file := (second.indirect file).trans (first.indirect file)

/-- Files have the same blocks. -/
theorem blocks (same : SameStorage fs later) :
    later.blocks layout file = fs.blocks layout file :=
  blocks_congr same.area (same.direct file) (same.indirect file) fun _ _ _ _ => by rw [same.data]

/-- Files have the same bytes. -/
theorem contents (same : SameStorage fs later) :
    later.contents layout file = fs.contents layout file := by
  rw [FileSystem.contents, FileSystem.contents, same.blocks, same.data]

/-- Setting the time of the last access. -/
theorem setInode (fs : FileSystem) (file time : Nat) :
    SameStorage fs (fs.setInode file { fs.inodes file with atim := time }) := by
  -- The only inode that changes has the same size and the same block numbers.
  have fields : ∀ other,
      ((fs.setInode file { fs.inodes file with atim := time }).inodes other).size =
        (fs.inodes other).size ∧
      ((fs.setInode file { fs.inodes file with atim := time }).inodes other).direct =
        (fs.inodes other).direct ∧
      ((fs.setInode file { fs.inodes file with atim := time }).inodes other).indirect =
        (fs.inodes other).indirect := by
    intro other
    by_cases equal : other = file
    · simp [FileSystem.setInode, equal]
    · simp [FileSystem.setInode, equal]
  exact ⟨rfl, rfl, fun other => (fields other).1, fun other => (fields other).2.1,
    fun other => (fields other).2.2⟩

end SameStorage

/-- Reading a virtual file leaves the file system as it is. -/
theorem minixfsVirtualRead_fs : (minixfsVirtualRead layout fs path count off).fs = fs := by
  simp only [minixfsVirtualRead]
  split_ifs <;> rfl

/-- A read changes nothing but the time of the last access. -/
theorem minixfsRead_sameStorage {result : ReadResult}
    (done : minixfsRead layout utils clock fs path count off = some result) :
    SameStorage fs result.fs := by
  -- The time is set only at the end; all other ways out change nothing.
  simp only [minixfsRead] at done
  split at done
  · obtain rfl := Option.some.inj done
    rw [minixfsVirtualRead_fs]
    exact .refl fs
  · split at done
    · obtain rfl := Option.some.inj done
      exact .refl fs
    · split at done
      · obtain rfl := Option.some.inj done
        exact .refl fs
      · split at done
        · cases done
        · obtain rfl := Option.some.inj done
          exact .setInode fs _ _

/-- One call of `minixfs_read`, on any path. -/
def Reads (layout : Layout) (utils : Utils) (before after : FileSystem) : Prop :=
  ∃ clock path count off result,
    minixfsRead layout utils clock before path count off = some result ∧ result.fs = after

/-- Any number of reads changes nothing but times of the last access. -/
theorem reads_sameStorage (reads : Relation.ReflTransGen (Reads layout utils) fs later) :
    SameStorage fs later := by
  -- Each read keeps the storage, so a sequence of them does.
  induction reads with
  | refl => exact .refl fs
  | tail _ last ih =>
    obtain ⟨clock, path, count, off, result, done, rfl⟩ := last
    exact ih.trans (minixfsRead_sameStorage done)

/-- A read inside a file whose positions have blocks copies its bytes. -/
theorem minixfsRead_eq (resolves : utils.getInode fs path = some file)
    (real : utils.isVirtualPath path = none)
    (held : ∀ position, off ≤ position → position < off + count →
      (fs.blocks layout file (position / layout.blockSize)).isSome)
    (within : off + count ≤ (fs.inodes file).size) (small : off + count < sizeRange) :
    ∃ after, minixfsRead layout utils clock fs path count off =
      some ⟨count, after, off + count, (fs.contents layout file).readBytes off count⟩ := by
  -- The range lies inside the file, so it is not cut.
  have tail : min (fs.inodes file).size ((off + count) % sizeRange) = off + count := by
    rw [Nat.mod_eq_of_lt small, Nat.min_eq_right within]
  simp only [minixfsRead, real, resolves, tail]
  by_cases nothing : off + count ≤ off
  · -- A read of no bytes returns before the loop.
    obtain rfl : count = 0 := by omega
    rw [if_pos nothing]
    exact ⟨fs, rfl⟩
  · rw [if_neg nothing, Nat.add_sub_cancel_left]
    -- The loop starts in the block of the offset.
    have loop := @readBlocks_eq layout fs.dblockCount (off / layout.blockSize)
      (off % layout.blockSize) off count count (fs.inodes file) fs.data
      (Nat.mod_lt off layout.blockSize_pos) (Nat.le_refl count)
    rw [Nat.div_add_mod'] at loop
    rw [loop held]
    exact ⟨_, rfl⟩

/-- What a write leaves alone. -/
structure WriteFrame (layout : Layout) (utils : Utils) (path : Path) (file off count : Nat)
    (before after : FileSystem) : Prop where
  /-- Other files and directories keep their inodes, and the bytes of all of their blocks. -/
  others : ∀ other, other ≠ file → (before.inodes other).used = true →
    after.inodes other = before.inodes other ∧
      ∀ block, before.Owns layout other block → before.Keeps after layout block
  /-- The file keeps the blocks it has. -/
  kept : ∀ piece block, before.blocks layout file piece = some block →
    after.blocks layout file piece = some block
  /-- After the reservation, only blocks with bytes of the file are written. -/
  written : ∃ reserved,
    utils.minixfsMinBlockcount before path (lastBlock layout off count + 1) = (0, reserved) ∧
    ∀ block, (∀ piece, after.blocks layout file piece ≠ some block) →
      reserved.Keeps after layout block

/-- A successful write leaves everything alone that it does not have to write. -/
theorem Written.frame (written : Written layout utils clock path file off buf fs reserved after) :
    WriteFrame layout utils path file off buf.length fs after where
  others other differ used := by
    obtain ⟨inode, kept⟩ := written.promised.others other differ used
    -- The blocks of the other file are kept by the reservation, and then by the write.
    refine ⟨(written.inodes differ).trans inode, fun block owned a inside => ?_⟩
    exact ((written.others differ used owned).2 a inside).trans (kept block owned a inside)
  kept _ _ before := written.kept before
  written := by
    refine ⟨reserved, written.asked, fun block apart => written.keeps ?_⟩
    rw [← written.blocks]
    exact apart

/-- A byte that is not written is the byte that the file held before. -/
theorem Written.contents_old (written : Written layout utils clock path file off buf fs reserved after)
    (before : (fs.blocks layout file (position / layout.blockSize)).isSome) :
    reserved.contents layout file position = fs.contents layout file position := by
  obtain ⟨block, found⟩ := Option.isSome_iff_exists.mp before
  obtain ⟨still, same⟩ := written.promised.kept _ _ found
  have place := Nat.div_add_mod' position layout.blockSize
  have inside := Nat.mod_lt position layout.blockSize_pos
  -- The position is at the same offset of the same block, whose bytes were kept.
  rw [← place, FileSystem.contents, FileSystem.contents, BlockMap.view_of_piece still inside,
    BlockMap.view_of_piece found inside]
  exact same _ (BlockMap.div_mod_of_offset inside).1

/-- A write at the size or before it makes the size reach the end of what it wrote. -/
theorem Written.size_reaches (written : Written layout utils clock path file off buf fs reserved after)
    (covered : fs.Covered layout file) (within : off ≤ (fs.inodes file).size) :
    max (fs.inodes file).size (off + buf.length) ≤ (after.inodes file).size ∧
      max (fs.inodes file).size (off + buf.length) < sizeRange := by
  -- Neither the old size nor the written range is longer than the largest file.
  have old : (fs.inodes file).size = 0 ∨ 0 + (fs.inodes file).size ≤ 2 ^ 62 :=
    range_le fun position _ upper => covered position (by omega)
  -- Below these bounds the sums do not wrap around.
  have range := written.range
  rw [written.size]
  simp only [sizeRange]
  omega

/--
Whatever is read after a successful write, in the range of the file, is what was written, and
otherwise what the file held before; and everything else is left alone.
-/
theorem write_then_read (reserves : utils.Reserves layout)
    (resolves : utils.getInode fs path = some file) (wellFormed : fs.WellFormed layout file)
    (within : off ≤ (fs.inodes file).size)
    (done : minixfsWrite layout utils clock fs path buf off =
      some ⟨buf.length, after, newOff⟩) :
    (∀ later readClock readPath readOff count,
      Relation.ReflTransGen (Reads layout utils) after later →
      utils.getInode later readPath = some file → utils.isVirtualPath readPath = none →
      readOff + count ≤ max (fs.inodes file).size (off + buf.length) →
      ∃ result, minixfsRead layout utils readClock later readPath count readOff = some result ∧
        result.returned = count ∧ result.off = readOff + count ∧ result.buf.length = count ∧
        ∀ position, readOff ≤ position → position < readOff + count →
          result.buf.getD (position - readOff) 0 =
            if off ≤ position ∧ position < off + buf.length then buf.getD (position - off) 0
            else fs.contents layout file position) ∧
    WriteFrame layout utils path file off buf.length fs after := by
  have named : openForWrite layout utils clock fs path = some (some file, fs) := by
    rw [openForWrite, resolves]
  obtain ⟨⟨reserved, written⟩, -⟩ :=
    written_of_minixfsWrite reserves named resolves wellFormed.exclusive done
  refine ⟨?_, written.frame⟩
  intro later readClock readPath readOff count reads found real inRange
  have storage := reads_sameStorage reads
  obtain ⟨reaches, small⟩ := written.size_reaches wellFormed.covered within
  -- A position that is read belongs to the old file or to the written range.
  have split : ∀ position, position < readOff + count →
      position < (fs.inodes file).size ∨ (off ≤ position ∧ position < off + buf.length) := by
    intro position upper
    omega
  -- Each position that is read has a block, an old one or a new one.
  have held : ∀ position, readOff ≤ position → position < readOff + count →
      (later.blocks layout file (position / layout.blockSize)).isSome := by
    intro position _ upper
    rw [storage.blocks]
    rcases split position upper with old | ⟨lower, below⟩
    · obtain ⟨block, before⟩ := Option.isSome_iff_exists.mp (wellFormed.covered position old)
      exact Option.isSome_iff_exists.mpr ⟨block, written.kept before⟩
    · exact written.held lower below
  -- The read comes to its end, and copies the bytes of the file.
  have copied : ∃ final, minixfsRead layout utils readClock later readPath count readOff =
      some ⟨count, final, readOff + count, (later.contents layout file).readBytes readOff count⟩ :=
    minixfsRead_eq found real held (by rw [storage.size]; omega) (by omega)
  obtain ⟨final, result⟩ := copied
  refine ⟨_, result, rfl, rfl, Memory.length_readBytes, fun position lower upper => ?_⟩
  -- The byte that is read is the one at its position in the file.
  have byte : ((later.contents layout file).readBytes readOff count).getD (position - readOff) 0 =
      later.contents layout file (readOff + (position - readOff)) :=
    Memory.readBytes_getD (by omega)
  rw [byte, Nat.add_sub_of_le lower, storage.contents, written.contents, Memory.writeBytes]
  split
  · rfl
  next unwritten =>
    apply written.contents_old
    rcases split position upper with old | new
    · exact wellFormed.covered position old
    · exact absurd new unwritten

/-- Blocks of four bytes: a file has one direct block and one that the indirect block names. -/
def sampleLayout : Layout where
  blockSize := 4
  numDirectBlocks := 1
  dataNumber := 3
  fileNameEntry := 4
  blockSize_pos := by decide
  largest_file := by decide

/-- A file system with one file of six bytes, whose path is `f`. -/
def sampleFileSystem : FileSystem where
  dblockCount := 3
  dataMap _ := 1
  inodes
    | 0 => ⟨true, 6, fun _ => 2, 1, 0, 0⟩
    | _ => ⟨false, 0, fun _ => unassignedNode, unassignedNode, 0, 0⟩
  data _ := 0

/-- A library for file systems whose only file has all the blocks it will ever have. -/
def sampleUtils (layout : Layout) : Utils where
  getInode fs path := if path = [102] ∧ (fs.inodes 0).used = true then some 0 else none
  minixfsMinBlockcount fs _ count :=
    if (List.range count.toNat).all fun piece => (fs.blocks layout 0 piece).isSome then (0, fs)
    else (-1, fs)
  isVirtualPath _ := none
  firstUnusedInode _ := none
  parentDirectory _ path := (none, path)
  validFilename _ := true
  initInode _ _ := ⟨true, 0, fun _ => unassignedNode, unassignedNode, 0, 0⟩
  addSingleIndirectBlock fs _ := (-1, fs)
  addDataBlockToInode fs _ := (-1, fs)
  addDataBlockToIndirectBlock fs _ := (-1, fs)
  makeStringFromDirent name _ := name

/-- There is nothing to reserve for a file that has the blocks. -/
theorem sampleUtils_enough {count : Int} (enough : ((List.range count.toNat).all fun piece =>
      (fs.blocks layout 0 piece).isSome) = true) :
    (sampleUtils layout).minixfsMinBlockcount fs path count = (0, fs) :=
  if_pos enough

/-- Where the blocks are there already, reserving them changes nothing. -/
theorem sampleUtils_reserves (layout : Layout) : (sampleUtils layout).Reserves layout := by
  intro fs path file count after resolves exclusive asked
  simp only [sampleUtils] at resolves asked
  split at resolves
  · obtain rfl := Option.some.inj resolves
    split at asked
    -- The call returns 0 only if the blocks are there.
    next all =>
      obtain ⟨-, rfl⟩ := Prod.mk.inj asked
      have enough : ∀ piece : Nat, piece < count → (fs.blocks layout 0 piece).isSome := by
        intro piece below
        exact List.all_eq_true.mp all piece (List.mem_range.mpr (by omega))
      exact ⟨exclusive, enough, fun _ _ held => ⟨held, fun _ _ => rfl⟩, rfl, rfl, rfl,
        fun _ _ _ => ⟨rfl, fun _ _ _ _ => rfl⟩⟩
    · exact absurd (Prod.mk.inj asked).1 (by decide)
  · cases resolves

/-- The blocks of the sample file: the third one directly, and the first one by an entry. -/
theorem sample_blocks (held : sampleFileSystem.blocks sampleLayout 0 piece = some block) :
    (piece = 0 ∧ block = 2) ∨ (piece = 1 ∧ block = 0) := by
  -- Two pieces can be named in all.
  have small : piece < 1 + 4 / 4 := piece_lt held
  have first : sampleFileSystem.blocks sampleLayout 0 0 = some 2 := by decide
  have second : sampleFileSystem.blocks sampleLayout 0 1 = some 0 := by decide
  obtain rfl | rfl : piece = 0 ∨ piece = 1 := by omega
  · exact .inl ⟨rfl, Option.some.inj (held.symm.trans first)⟩
  · exact .inr ⟨rfl, Option.some.inj (held.symm.trans second)⟩

/-- The sample file is well formed. -/
theorem sample_wellFormed : sampleFileSystem.WellFormed sampleLayout 0 := by
  refine ⟨⟨⟨?_, ?_⟩, ?_⟩, ?_⟩
  · intro piece other block first second
    have := sample_blocks first
    have := sample_blocks second
    omega
  · intro piece block held
    rcases sample_blocks held with ⟨-, rfl⟩ | ⟨-, rfl⟩ <;> decide
  · -- No other inode is in use.
    intro other differ used
    cases other with
    | zero => exact absurd rfl differ
    | succ other => cases used
  · -- The six bytes lie in the two pieces.
    intro position below
    have small : position / 4 = 0 ∨ position / 4 = 1 := by
      have : position < 6 := below
      omega
    rcases small with first | second
    · simp only [sampleLayout, first]
      rfl
    · simp only [sampleLayout, second]
      rfl

/-- Three bytes over the end of a direct block, read back with what stood before them. -/
theorem write_then_read_sample :
    ∃ after, minixfsWrite sampleLayout (sampleUtils sampleLayout) (fun _ => 0) sampleFileSystem
        [102] [7, 8, 9] 2 = some ⟨3, after, 5⟩ ∧
      ∃ result, minixfsRead sampleLayout (sampleUtils sampleLayout) (fun _ => 0) after [102] 6 0 =
          some result ∧ result.returned = 6 ∧ result.buf.getD 1 0 = 0 ∧
        result.buf.getD 4 0 = 9 := by
  -- The two blocks that the write needs are there.
  have asked := @sampleUtils_enough sampleLayout [102] sampleFileSystem
    (lastBlock sampleLayout 2 [(7 : UInt8), 8, 9].length + 1) (by decide +kernel)
  obtain ⟨after, done⟩ := minixfsWrite_done (sampleUtils_reserves sampleLayout) rfl
    sample_wellFormed.exclusive (by decide) (by decide) asked
  obtain ⟨⟨reserved, written⟩, -⟩ := written_of_minixfsWrite (sampleUtils_reserves sampleLayout) rfl
    rfl sample_wellFormed.exclusive done
  obtain ⟨reads, -⟩ := write_then_read (sampleUtils_reserves sampleLayout) rfl sample_wellFormed
    (by decide) done
  -- The read goes over all six bytes.
  obtain ⟨result, read, returned, -, -, bytes⟩ :=
    reads after (fun _ => 0) [102] 0 6 .refl (if_pos ⟨rfl, written.used⟩) rfl (by decide)
  refine ⟨after, done, result, read, returned, ?_, ?_⟩
  · exact (bytes 1 (by decide) (by decide)).trans (by decide)
  · exact (bytes 4 (by decide) (by decide)).trans (by decide)

end SystemProgramming.Minixfs
