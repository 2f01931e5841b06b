import SystemProgramming.Minixfs.Size

/-! Many files side by side: every run of writes and reads is one of separate byte files. -/

namespace SystemProgramming.Minixfs

open Foundations

/-- A call on a file that is there, by its inode and its arguments, with what it answered. -/
inductive FileCall where
  | write (file off : Nat) (buf : List UInt8) (returned : Int)
  | read (file off count : Nat) (returned : Int) (newOff : Nat) (buf : List UInt8)
  | readVirtual (path : Path) (off count : Nat)

section Calls

variable (layout : Layout) (utils : Utils)

/-- The calls of `minixfs_write` and `minixfs_read` that come to an end, in a state. -/
inductive FileStep : FileSystem → FileCall → FileSystem → Prop
  | write {fs : FileSystem} {clock : Nat → Nat} {path : Path} {file off : Nat} {buf : List UInt8}
      {result : WriteResult} (resolves : utils.getInode fs path = some file)
      (done : minixfsWrite layout utils clock fs path buf off = some result) :
      FileStep fs (.write file off buf result.returned) result.fs
  | read {fs : FileSystem} {clock : Nat → Nat} {path : Path} {file off count : Nat}
      {result : ReadResult} (resolves : utils.getInode fs path = some file)
      (real : utils.isVirtualPath path = none)
      (done : minixfsRead layout utils clock fs path count off = some result) :
      FileStep fs (.read file off count result.returned result.off result.buf) result.fs
  | readVirtual {fs : FileSystem} {clock : Nat → Nat} {path virtualPath : Path} {off count : Nat}
      {result : ReadResult} (virtual : utils.isVirtualPath path = some virtualPath)
      (done : minixfsRead layout utils clock fs path count off = some result) :
      FileStep fs (.readVirtual path off count) result.fs

/-- What the library promises about the inodes and blocks of files that are there. -/
structure Utils.Books : Prop where
  found_used : ∀ fs path file, utils.getInode fs path = some file →
    (fs.inodes file).used = true
  marks : ∀ fs path count file,
    ((utils.minixfsMinBlockcount fs path count).2.inodes file).used = (fs.inodes file).used
  reserves : utils.Reserves layout
  /-- An attempt that fails may leave blocks with the file, and is kept to that. -/
  attempts : ∀ fs path file count code after, utils.getInode fs path = some file →
    fs.Exclusive layout file → utils.minixfsMinBlockcount fs path count = (code, after) →
    code ≠ 0 → Reserved layout file 0 fs after

end Calls

/-- Files of bytes that have nothing to do with each other; some bytes may be unknown. -/
structure ByteFiles where
  known : Nat → Nat → Option UInt8
  size : Nat → Nat

namespace ByteFiles

/-- Writing to one file; its size grows by what was written, wherever that is. -/
def write (files : ByteFiles) (file off : Nat) (buf : List UInt8) : ByteFiles where
  known := Function.update files.known file fun position =>
    if off ≤ position ∧ position < off + buf.length then buf[position - off]?
    else files.known file position
  size := Function.update files.size file ((files.size file + buf.length) % sizeRange)

/-- A call changes its file if it writes and does not fail. -/
def apply (files : ByteFiles) : FileCall → ByteFiles
  | .write file off buf returned => if returned = -1 then files else files.write file off buf
  | _ => files

/-- The end of what a read of a file can reach. -/
def tail (files : ByteFiles) (file off count : Nat) : Nat := min (files.size file) (off + count)

/-- A call answers as these files do: a write fails or writes all, and a read gives the bytes. -/
def Answers (files : ByteFiles) : FileCall → Prop
  | .write _ _ buf returned => returned = -1 ∨ returned = buf.length
  | .read file off count returned newOff buf =>
    off + count < sizeRange →
    (∀ position, off ≤ position → position < files.tail file off count →
      (files.known file position).isSome) →
    returned = (files.tail file off count - off : Nat) ∧
      newOff = off + (files.tail file off count - off) ∧
      buf.map some = (List.range (files.tail file off count - off)).map fun offset =>
        files.known file (off + offset)
  | .readVirtual _ _ _ => True

/-- The files after a run. -/
def after (files : ByteFiles) (trace : List (Transition FileSystem FileCall)) : ByteFiles :=
  trace.foldl (fun files taken => files.apply taken.action) files

end ByteFiles

/-- The files of a file system: the bytes at all positions that have a block. -/
def FileSystem.files (fs : FileSystem) (layout : Layout) : ByteFiles where
  known file position :=
    if (fs.blocks layout file (position / layout.blockSize)).isSome then
      some (fs.contents layout file position)
    else none
  size file := (fs.inodes file).size

variable {layout : Layout} {utils : Utils} {clock : Nat → Nat} {path : Path} {buf : List UInt8}
  {file other block position count off newOff : Nat} {fs before reserved after origin final : FileSystem}
  {files : ByteFiles} {call : FileCall} {trace : List (Transition FileSystem FileCall)}

/-- The file system holds the files: each in blocks of its own, with the known bytes in them. -/
structure Holds (layout : Layout) (fs : FileSystem) (files : ByteFiles) : Prop where
  exclusive : ∀ file, (fs.inodes file).used = true → fs.Exclusive layout file
  size : ∀ file, (fs.inodes file).used = true → (fs.inodes file).size = files.size file
  known : ∀ file, (fs.inodes file).used = true → ∀ position byte,
    files.known file position = some byte →
      (fs.blocks layout file (position / layout.blockSize)).isSome ∧
        fs.contents layout file position = byte

/-- What a write to a file leaves of the other files, whether it fails or not. -/
structure Beside (layout : Layout) (file : Nat) (before after : FileSystem) : Prop where
  exclusive : after.Exclusive layout file
  used : ∀ other, (after.inodes other).used = (before.inodes other).used
  area : after.dblockCount = before.dblockCount
  others : ∀ other, other ≠ file → (before.inodes other).used = true →
    after.inodes other = before.inodes other ∧
      ∀ block, before.Owns layout other block → before.Keeps after layout block

/-- A byte stays where its block stays and is not written. -/
theorem contents_of_keeps (held : before.blocks layout file (position / layout.blockSize) = some block)
    (still : after.blocks layout file (position / layout.blockSize) = some block)
    (same : before.Keeps after layout block) :
    after.contents layout file position = before.contents layout file position := by
  have place := Nat.div_add_mod' position layout.blockSize
  have inside := Nat.mod_lt position layout.blockSize_pos
  -- The position is at the same offset of the same block.
  rw [← place, FileSystem.contents, FileSystem.contents, BlockMap.view_of_piece still inside,
    BlockMap.view_of_piece held inside]
  exact same _ (BlockMap.div_mod_of_offset inside).1

namespace Beside

/-- Another file has the same blocks. -/
theorem blocks (beside : Beside layout file before after) (differ : other ≠ file)
    (used : (before.inodes other).used = true) :
    after.blocks layout other = before.blocks layout other := by
  -- The block of the indirect table belongs to the file, so it is kept as well.
  obtain ⟨same, keeps⟩ := beside.others other differ used
  exact blocks_congr beside.area (by rw [same]) (by rw [same]) fun table found =>
    keeps table (.inr found)

/-- Another file owns the same blocks. -/
theorem owns (beside : Beside layout file before after) (differ : other ≠ file)
    (used : (before.inodes other).used = true) :
    after.Owns layout other block ↔ before.Owns layout other block := by
  obtain ⟨same, keeps⟩ := beside.others other differ used
  exact owns_congr beside.area same fun table found => keeps table (.inr found)

/-- All files still have blocks of their own. -/
theorem all_exclusive (beside : Beside layout file before after)
    (sound : ∀ other, (before.inodes other).used = true → before.Exclusive layout other)
    (used : (after.inodes other).used = true) : after.Exclusive layout other := by
  by_cases same : other = file
  · exact same ▸ beside.exclusive
  -- Another file has the blocks that it had, and so has each third one.
  have old := beside.used other ▸ used
  obtain ⟨inode, -⟩ := beside.others other same old
  have exclusive := sound other old
  have blocks := beside.blocks same old
  refine ⟨⟨?_, ?_⟩, fun third differ thirdUsed block owned again => ?_⟩
  · intro piece next block first second
    have distinct := exclusive.apart.distinct piece next block
    rw [← FileSystem.blocks, ← blocks] at distinct
    exact distinct first second
  · intro piece block held
    -- Its table is in the same block, and that is none of its data blocks.
    have apart := exclusive.apart.table piece block
    rw [← FileSystem.blocks, ← blocks, ← inode, ← beside.area] at apart
    exact apart held
  · by_cases written : third = file
    · -- The file that is written has no block of another one.
      subst written
      exact beside.exclusive.alone other (Ne.symm differ) used block again owned
    · have thirdOld := beside.used third ▸ thirdUsed
      exact exclusive.alone third differ thirdOld block ((beside.owns same old).mp owned)
        ((beside.owns written thirdOld).mp again)

/-- The other files hold what they held. -/
theorem known (beside : Beside layout file before after) (holds : Holds layout before files)
    (differ : other ≠ file) (used : (after.inodes other).used = true) {byte : UInt8}
    (found : files.known other position = some byte) :
    (after.blocks layout other (position / layout.blockSize)).isSome ∧
      after.contents layout other position = byte := by
  have old := beside.used other ▸ used
  obtain ⟨some, same⟩ := holds.known other old position byte found
  -- A known byte has a block, which stays where it is.
  obtain ⟨block, held⟩ := Option.isSome_iff_exists.mp some
  have still := beside.blocks differ old ▸ held
  refine ⟨Option.isSome_iff_exists.mpr ⟨block, still⟩, ?_⟩
  rw [contents_of_keeps held still ((beside.others other differ old).2 block (.inl ⟨_, held⟩)), same]

end Beside

/-- What a call of `minixfs_min_blockcount` leaves beside the file, whether it fails or not. -/
theorem beside_of_reserved (books : utils.Books layout) {asked : Int}
    (promise : Reserved layout file asked fs reserved) {number : Int}
    (called : (utils.minixfsMinBlockcount fs path number).2 = reserved) :
    Beside layout file fs reserved where
  exclusive := promise.exclusive
  used other := by
    rw [← called]
    exact books.marks fs path number other
  area := promise.area
  others := promise.others

/-- Blocks that are added to a file leave what it held. -/
theorem Holds.reserve (books : utils.Books layout) (holds : Holds layout fs files) {asked : Int}
    (promise : Reserved layout file asked fs reserved) {number : Int}
    (called : (utils.minixfsMinBlockcount fs path number).2 = reserved) :
    Holds layout reserved files := by
  have beside := beside_of_reserved books promise called
  refine ⟨fun other used => beside.all_exclusive holds.exclusive used, fun other used => ?_,
    fun other used position byte found => ?_⟩
  · have old := beside.used other ▸ used
    by_cases same : other = file
    · rw [same, promise.size, ← same, holds.size other old]
    · rw [(beside.others other same old).1, holds.size other old]
  · by_cases same : other = file
    · -- The file that gets blocks keeps those that it has.
      subst same
      have old := beside.used other ▸ used
      obtain ⟨some, same⟩ := holds.known other old position byte found
      obtain ⟨block, held⟩ := Option.isSome_iff_exists.mp some
      obtain ⟨still, keeps⟩ := promise.kept _ _ held
      exact ⟨Option.isSome_iff_exists.mpr ⟨block, still⟩,
        (contents_of_keeps held still keeps).trans same⟩
    · exact beside.known holds same used found

/-- A write that succeeds is a write to its byte file, and to no other one. -/
theorem Holds.written (books : utils.Books layout) (holds : Holds layout fs files)
    (named : (fs.inodes file).used = true)
    (written : Written layout utils clock path file off buf fs reserved after) :
    Holds layout after (files.write file off buf) := by
  -- Neither the reservation nor the write marks an inode.
  have used : ∀ other, (after.inodes other).used = (fs.inodes other).used := by
    intro other
    by_cases same : other = file
    · rw [same, written.used]
    · rw [written.inodes same]
      have marks := books.marks fs path (lastBlock layout off buf.length + 1) other
      rw [written.asked] at marks
      exact marks
  have beside : Beside layout file fs after :=
    ⟨written.exclusive, used, written.area.trans written.promised.area, written.frame.others⟩
  refine ⟨fun other used => beside.all_exclusive holds.exclusive used, fun other inUse => ?_,
    fun other inUse position byte found => ?_⟩
  · have old := used other ▸ inUse
    by_cases same : other = file
    · subst same
      simp only [ByteFiles.write, Function.update_self]
      rw [written.size, holds.size other old]
    · simp only [ByteFiles.write, Function.update_of_ne same]
      rw [(beside.others other same old).1, holds.size other old]
  · by_cases same : other = file
    · subst same
      simp only [ByteFiles.write, Function.update_self] at found
      rw [written.contents, Memory.writeBytes]
      split at found
      · -- A byte of the buffer.
        next inside =>
        refine ⟨written.held inside.1 inside.2, ?_⟩
        rw [if_pos inside, List.getD_eq_getElem?_getD, found]
        rfl
      · next outside =>
        -- A byte that was known already, and is not written.
        obtain ⟨some, old⟩ := holds.known other named position byte found
        obtain ⟨block, held⟩ := Option.isSome_iff_exists.mp some
        refine ⟨Option.isSome_iff_exists.mpr ⟨block, written.kept held⟩, ?_⟩
        rw [if_neg outside, written.contents_old some, old]
    · refine beside.known holds same inUse ?_
      simpa only [ByteFiles.write, Function.update_of_ne same] using found

/-- A write to a file that is there fails, and leaves an attempt, or writes all. -/
theorem write_cases {result : WriteResult} (resolves : utils.getInode fs path = some file)
    (done : minixfsWrite layout utils clock fs path buf off = some result) :
    (result.returned = -1 ∧ ∃ code, code ≠ 0 ∧
      utils.minixfsMinBlockcount fs path (lastBlock layout off buf.length + 1) =
        (code, result.fs)) ∨
    result.returned = buf.length := by
  simp only [minixfsWrite, openForWrite, resolves] at done
  split at done
  · cases done
  · -- Either the blocks could not be reserved, or the loop runs to its end.
    split at done
    · next failed =>
      obtain rfl := Option.some.inj done
      exact .inl ⟨rfl, _, failed, rfl⟩
    · split at done
      · cases done
      · obtain rfl := Option.some.inj done
        exact .inr rfl

/-- A write to a file that is there is one to its byte file. -/
theorem Holds.write (books : utils.Books layout) (holds : Holds layout fs files)
    {result : WriteResult} (resolves : utils.getInode fs path = some file)
    (done : minixfsWrite layout utils clock fs path buf off = some result) :
    Holds layout result.fs (files.apply (.write file off buf result.returned)) ∧
      files.Answers (.write file off buf result.returned) := by
  have used := books.found_used fs path file resolves
  have exclusive := holds.exclusive file used
  rcases write_cases resolves done with ⟨failed, code, nonzero, attempt⟩ | all
  · -- A write that fails may leave blocks with its file, but changes no byte.
    rw [ByteFiles.apply, if_pos failed]
    exact ⟨holds.reserve books
      (books.attempts fs path file _ code result.fs resolves exclusive attempt nonzero)
      (by rw [attempt]), .inl failed⟩
  · rw [ByteFiles.apply, if_neg (by omega)]
    have named : openForWrite layout utils clock fs path = some (some file, fs) := by
      rw [openForWrite, resolves]
    obtain ⟨returned, after, newOff⟩ := result
    obtain rfl : returned = buf.length := all
    obtain ⟨⟨reserved, written⟩, -⟩ :=
      written_of_minixfsWrite books.reserves named resolves exclusive done
    exact ⟨holds.written books used written, .inr rfl⟩

/-- Setting times leaves what the file system holds. -/
theorem Holds.sameStorage (holds : Holds layout fs files) (same : SameStorage fs after)
    (used : ∀ other, (after.inodes other).used = (fs.inodes other).used) :
    Holds layout after files where
  exclusive file inUse := by
    have old := holds.exclusive file (used file ▸ inUse)
    -- The blocks, the tables and the size are what they were.
    have owns : ∀ other block, after.Owns layout other block ↔ fs.Owns layout other block := by
      intro other block
      rw [FileSystem.Owns, FileSystem.Owns, same.blocks, same.area, same.indirect]
    refine ⟨⟨?_, ?_⟩, fun other differ otherUsed block owned again => ?_⟩
    · rw [← FileSystem.blocks, same.blocks]
      exact old.apart.distinct
    · rw [← FileSystem.blocks, same.blocks, same.area, same.indirect]
      exact old.apart.table
    · exact old.alone other differ (used other ▸ otherUsed) block ((owns file block).mp owned)
        ((owns other block).mp again)
  size file inUse := by rw [same.size, holds.size file (used file ▸ inUse)]
  known file inUse position byte found := by
    rw [same.blocks, same.contents]
    exact holds.known file (used file ▸ inUse) position byte found

/-- A read leaves the marks of all inodes. -/
theorem minixfsRead_used {result : ReadResult}
    (done : minixfsRead layout utils clock fs path count off = some result) (other : Nat) :
    (result.fs.inodes other).used = (fs.inodes other).used := by
  simp only [minixfsRead] at done
  split at done
  · obtain rfl := Option.some.inj done
    rw [minixfsVirtualRead_fs]
  · split at done
    · obtain rfl := Option.some.inj done
      rfl
    · next file _ =>
      split at done
      · obtain rfl := Option.some.inj done
        rfl
      · split at done
        · cases done
        · obtain rfl := Option.some.inj done
          -- Only the time of access is set in an inode.
          by_cases same : other = file
          · simp [FileSystem.setInode, same]
          · simp [FileSystem.setInode, same]

/-- A read that comes to its end has copied the bytes up to the size of the file. -/
theorem read_eq {result : ReadResult} {tail : Nat}
    (resolves : utils.getInode fs path = some file) (real : utils.isVirtualPath path = none)
    (ends : min (fs.inodes file).size (off + count) = tail) (small : off + count < sizeRange)
    (held : ∀ position, off ≤ position → position < tail →
      (fs.blocks layout file (position / layout.blockSize)).isSome)
    (done : minixfsRead layout utils clock fs path count off = some result) :
    result.returned = (tail - off : Nat) ∧ result.off = off + (tail - off) ∧
      result.buf = (fs.contents layout file).readBytes off (tail - off) := by
  simp only [minixfsRead, real, resolves, Nat.mod_eq_of_lt small, ends] at done
  -- Behind the end, or with no bytes asked for, nothing is read.
  split at done
  · next nothing =>
    obtain rfl := Option.some.inj done
    rw [Nat.sub_eq_zero_of_le nothing]
    exact ⟨rfl, rfl, rfl⟩
  · -- The loop starts in the block of the offset.
    have loop := @readBlocks_eq layout fs.dblockCount (off / layout.blockSize)
      (off % layout.blockSize) off (tail - off) (tail - off) (fs.inodes file) fs.data
      (Nat.mod_lt off layout.blockSize_pos) (Nat.le_refl _)
    rw [Nat.div_add_mod'] at loop
    rw [loop fun position lower upper => held position lower (by omega)] at done
    obtain rfl := Option.some.inj done
    exact ⟨rfl, rfl, rfl⟩

/-- A read of a file that is there is one of its byte file. -/
theorem Holds.read (books : utils.Books layout) (holds : Holds layout fs files)
    {result : ReadResult} (resolves : utils.getInode fs path = some file)
    (real : utils.isVirtualPath path = none)
    (done : minixfsRead layout utils clock fs path count off = some result) :
    files.Answers (.read file off count result.returned result.off result.buf) := by
  intro small known
  have used := books.found_used fs path file resolves
  have ends : min (fs.inodes file).size (off + count) = files.tail file off count := by
    rw [ByteFiles.tail, holds.size file used]
  -- All bytes that are asked for are known, so each has its block.
  have byte : ∀ position, off ≤ position → position < files.tail file off count →
      (fs.blocks layout file (position / layout.blockSize)).isSome ∧
        files.known file position = some (fs.contents layout file position) := by
    intro position lower upper
    obtain ⟨byte, found⟩ := Option.isSome_iff_exists.mp (known position lower upper)
    obtain ⟨some, same⟩ := holds.known file used position byte found
    exact ⟨some, by rw [found, same]⟩
  obtain ⟨returned, newOff, copied⟩ := read_eq resolves real ends small
    (fun position lower upper => (byte position lower upper).1) done
  refine ⟨returned, newOff, ?_⟩
  rw [copied, Memory.readBytes, List.map_map]
  refine List.map_congr_left fun offset member => ?_
  have below := List.mem_range.mp member
  exact (byte (off + offset) (Nat.le_add_right _ _) (by omega)).2.symm

/-- Every call is one on the byte files. -/
theorem Holds.step (books : utils.Books layout) (holds : Holds layout before files)
    (step : FileStep layout utils before call after) :
    Holds layout after (files.apply call) ∧ files.Answers call := by
  cases step with
  | write resolves done => exact holds.write books resolves done
  | read resolves real done =>
    -- A read sets the time of access only.
    exact ⟨holds.sameStorage (minixfsRead_sameStorage done) (minixfsRead_used done),
      holds.read books resolves real done⟩
  | readVirtual virtual done =>
    exact ⟨holds.sameStorage (minixfsRead_sameStorage done) (minixfsRead_used done), trivial⟩

/-- After every run the file system holds the files that the calls have left. -/
theorem holds_of_run (books : utils.Books layout)
    (run : Run (FileStep layout utils) origin trace final) (holds : Holds layout origin files) :
    Holds layout final (files.after trace) := by
  induction run with
  | start => exact holds
  | next _ step ih =>
    -- The last call comes upon the files that the others have left.
    rw [ByteFiles.after, List.foldl_append]
    exact (ih.step books step).1

end SystemProgramming.Minixfs
