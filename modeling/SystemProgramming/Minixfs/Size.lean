import SystemProgramming.Foundations.Runs
import SystemProgramming.Minixfs.Contents

/-! The size of a file over runs of writes, and the blocks that a read of it follows. -/

namespace SystemProgramming.Minixfs

open Foundations

/-- What the library promises about inodes when a file is looked up or created. -/
structure Utils.Creates (utils : Utils) : Prop where
  found_used : ∀ fs path file, utils.getInode fs path = some file →
    (fs.inodes file).used = true
  unused : ∀ fs file, utils.firstUnusedInode fs = some file → (fs.inodes file).used = false
  parent_used : ∀ fs path parent, (utils.parentDirectory fs path).1 = some parent →
    (fs.inodes parent).used = true
  init : ∀ parent inode, utils.initInode parent inode =
    { utils.initInode parent inode with
      used := true
      size := 0
      direct := fun _ => unassignedNode
      indirect := unassignedNode }
  single : ∀ fs parent other, other ≠ parent →
    (utils.addSingleIndirectBlock fs parent).2.inodes other = fs.inodes other
  direct : ∀ fs parent other, other ≠ parent →
    (utils.addDataBlockToInode fs parent).2.inodes other = fs.inodes other
  indirect : ∀ fs table other,
    (utils.addDataBlockToIndirectBlock fs table).2.inodes other = fs.inodes other

namespace FileSystem

/-- The size of a file; a file that is not there yet has size 0. -/
def fileSize (fs : FileSystem) (file : Nat) : Nat :=
  if (fs.inodes file).used = true then (fs.inodes file).size else 0

/-- How many blocks for its bytes are assigned to a file. -/
def assigned (fs : FileSystem) (layout : Layout) (file : Nat) : Nat :=
  (List.range (layout.numDirectBlocks + layout.blockSize / numberSize)).countP fun piece =>
    (fs.blocks layout file piece).isSome

/-- If the file is there, it has its blocks for itself, and its size is a `uint64_t`. -/
structure Sound (fs : FileSystem) (layout : Layout) (file : Nat) : Prop where
  exclusive : (fs.inodes file).used = true → fs.Exclusive layout file
  size : fs.fileSize file < sizeRange

/-- If the file is there, every byte of it has a block. -/
def Backed (fs : FileSystem) (layout : Layout) (file : Nat) : Prop :=
  (fs.inodes file).used = true → fs.Covered layout file

end FileSystem

/-- A call of `minixfs_write`. -/
structure WriteCall where
  clock : Nat → Nat
  path : Path
  buf : List UInt8
  off : Nat

/-- The write goes on where a file of that size ends, or writes no byte and starts inside it. -/
def WriteCall.Appends (call : WriteCall) (size : Nat) : Prop :=
  call.off = size ∨ call.buf = [] ∧ call.off ≤ size

/-- A successful write to the file, which the call creates if it is not there. -/
def WritesTo (layout : Layout) (utils : Utils) (file : Nat) (before : FileSystem)
    (call : WriteCall) (after : FileSystem) : Prop :=
  ∃ opened newOff,
    openForWrite layout utils call.clock before call.path = some (some file, opened) ∧
    utils.getInode opened call.path = some file ∧
    minixfsWrite layout utils call.clock before call.path call.buf call.off =
      some ⟨call.buf.length, after, newOff⟩

variable {layout : Layout} {utils : Utils} {clock : Nat → Nat} {path : Path} {buf : List UInt8}
  {file parent off : Nat} {fs opened reserved before after origin final : FileSystem}
  {call : WriteCall} {trace : List (Transition FileSystem WriteCall)}

/-- Finding a place for the new entry of the parent leaves every other inode alone. -/
theorem direntBlock_inodes {place : Option Nat} {idb : Int} {offsetDb : Nat}
    (creates : utils.Creates) (differ : file ≠ parent)
    (found : direntBlock layout utils fs parent idb offsetDb = some (place, after)) :
    after.inodes file = fs.inodes file := by
  -- Only the helpers that add a block to the parent change an inode, and it is the parent's.
  simp only [direntBlock] at found
  split at found
  · -- A direct block: an existing one, or one that is added to the parent.
    split at found
    · split at found
      · cases Option.some.inj found
        rfl
      · cases found
    · split at found
      · cases Option.some.inj found
        exact creates.direct _ _ _ differ
      · cases Option.some.inj found
        exact creates.direct _ _ _ differ
  · -- A block that the indirect block of the parent names.
    split at found
    · split at found
      · cases Option.some.inj found
        rfl
      · cases found
    · split at found
      · cases Option.some.inj found
        exact creates.indirect _ _ _
      · cases Option.some.inj found
        exact creates.indirect _ _ _

/-- A new file in a directory that is another inode gets what `init_inode` sets. -/
theorem createIn_inode {name : Path} {numUnused : Nat} (creates : utils.Creates)
    (differ : numUnused ≠ parent)
    (created : createIn layout utils clock fs parent name numUnused = some (some file, opened)) :
    file = numUnused ∧ ∃ parent inode, opened.inodes file = utils.initInode parent inode := by
  simp only [createIn] at created
  split at created
  · simp at created
  · split at created
    · simp at created
    · simp at created
    next newDb fs' placed =>
      simp only [Option.some.injEq, Prod.mk.injEq] at created
      obtain ⟨rfl, rfl⟩ := created
      -- The entry of the parent and the parent's size are written after the inode is set up.
      have kept := direntBlock_inodes creates differ placed
      rw [FileSystem.setInode_same] at kept
      exact ⟨rfl, _, _, (FileSystem.setInode_other differ).trans kept⟩

/-- A file that is created was not there before, and it is empty. -/
theorem created_inode (creates : utils.Creates)
    (created : minixfsCreateInodeForPath layout utils clock fs path = some (some file, opened)) :
    (fs.inodes file).used = false ∧
      ∃ parent inode, opened.inodes file = utils.initInode parent inode := by
  -- Only one way through the function returns the inode.
  simp only [minixfsCreateInodeForPath] at created
  split at created
  · cases created
  · split at created
    · cases created
    next numUnused free =>
      have unused := creates.unused _ _ free
      split at created
      · cases created
      · split at created
        · cases created
        next parent within =>
          -- The parent is in use, so it is another inode than the unused one.
          have differ : numUnused ≠ parent := by
            intro same
            rw [same, creates.parent_used _ _ _ within] at unused
            cases unused
          obtain ⟨rfl, empty⟩ := createIn_inode creates differ created
          exact ⟨unused, empty⟩

/-- What a write finds when it has opened its file. -/
structure Opened (layout : Layout) (file : Nat) (before opened : FileSystem) : Prop where
  used : (opened.inodes file).used = true
  exclusive : opened.Exclusive layout file
  size : (opened.inodes file).size = before.fileSize file
  covered : before.Backed layout file → opened.Covered layout file

/-- An empty file without blocks has no blocks to share. -/
theorem empty_blocks (direct : (fs.inodes file).direct = fun _ => unassignedNode)
    (indirect : (fs.inodes file).indirect = unassignedNode) (piece : Nat) :
    fs.blocks layout file piece = none := by
  -- Neither the direct entries nor the indirect one is the number of a block.
  rw [FileSystem.blocks]
  rcases Nat.lt_or_ge piece layout.numDirectBlocks with below | above
  · rw [dataBlock_direct below, direct, blockOf_unassigned]
  · rw [dataBlock_indirect above, indirect, blockOf_unassigned, Option.bind_none, ite_self]

/-- Opening a file finds it as it was, and a file that is created is empty. -/
theorem opened_of_openForWrite (creates : utils.Creates) (sound : fs.Sound layout file)
    (named : openForWrite layout utils clock fs path = some (some file, opened)) :
    Opened layout file fs opened := by
  simp only [openForWrite] at named
  split at named
  -- The file is there, and nothing is changed to open it.
  next found =>
    obtain ⟨same, rfl⟩ := Prod.mk.inj (Option.some.inj named)
    obtain rfl := Option.some.inj same
    have used := creates.found_used _ _ _ found
    exact ⟨used, sound.exclusive used, (if_pos used).symm, fun backed => backed used⟩
  · obtain ⟨unused, parent, inode, new⟩ := created_inode creates named
    rw [creates.init] at new
    have none := @empty_blocks layout file opened (by rw [new]) (by rw [new])
    have size : (opened.inodes file).size = 0 := by rw [new]
    constructor
    · rw [new]
    · -- The blocks of a file without blocks are different ones, and nobody else has them.
      refine ⟨⟨fun _ _ _ held _ => ?_, fun _ _ held _ => ?_⟩, fun other _ _ block owned _ => ?_⟩
      · rw [FileSystem.blocks] at none
        rw [none] at held
        cases held
      · rw [FileSystem.blocks] at none
        rw [none] at held
        cases held
      · rcases owned with ⟨piece, held⟩ | table
        · rw [none] at held
          cases held
        · rw [new] at table
          cases table
    · rw [size, FileSystem.fileSize, if_neg (by rw [unused]; decide)]
    · intro _ position below
      rw [size] at below
      cases below

/-- The blocks of the file and of other files stay apart while bytes are written. -/
theorem Written.exclusive (written : Written layout utils clock path file off buf fs reserved after) :
    after.Exclusive layout file := by
  have promised := written.promised.exclusive
  -- The blocks of the file are those that were reserved for it.
  have same : ∀ block, after.Owns layout file block ↔ reserved.Owns layout file block := by
    intro block
    have table : (after.inodes file).indirect = (reserved.inodes file).indirect := by
      rw [written.stored]
      simp [FileSystem.stored]
    rw [FileSystem.Owns, FileSystem.Owns, written.blocks, written.area, table]
  constructor
  · have kept := written.wrote.apart promised.apart
    have blocks := written.blocks
    constructor
    · rw [FileSystem.blocks, FileSystem.blocks] at blocks
      rw [blocks]
      exact promised.apart.distinct
    · intro piece block held
      have table : (after.inodes file).indirect = (reserved.inodes file).indirect := by
        rw [written.stored]
        simp [FileSystem.stored]
      rw [FileSystem.blocks, FileSystem.blocks] at blocks
      rw [blocks] at held
      rw [written.area, table]
      exact promised.apart.table piece block held
  · -- Another file has the blocks that it had, since its indirect block is not written.
    intro other differ used block owned
    rw [written.inodes differ] at used
    rw [same] at owned
    have others : after.Owns layout other block ↔ reserved.Owns layout other block := by
      refine owns_congr written.area (written.inodes differ) fun table found => ?_
      apply written.keeps
      intro piece held
      exact promised.alone other differ used table (.inl ⟨piece, held⟩) (.inr found)
    rw [others]
    exact promised.alone other differ used block owned

/-- A successful write to a file, with what it finds when it has opened it. -/
theorem written_of_writesTo (reserves : utils.Reserves layout) (creates : utils.Creates)
    (sound : before.Sound layout file) (writes : WritesTo layout utils file before call after) :
    ∃ opened reserved, Opened layout file before opened ∧
      Written layout utils call.clock call.path file call.off call.buf opened reserved after := by
  -- The file is opened, blocks are reserved for it, and its bytes are written.
  obtain ⟨opened, newOff, named, resolves, done⟩ := writes
  have found := opened_of_openForWrite creates sound named
  obtain ⟨⟨reserved, written⟩, -⟩ :=
    written_of_minixfsWrite reserves named resolves found.exclusive done
  exact ⟨opened, reserved, found, written⟩

/-- The size after a write is what the code adds up. -/
theorem fileSize_after (found : Opened layout file before opened)
    (written : Written layout utils clock path file off buf opened reserved after) :
    after.fileSize file = (before.fileSize file + buf.length) % sizeRange := by
  -- The file is in use before the write adds to its size.
  rw [FileSystem.fileSize, if_pos (written.used.trans found.used), written.size, found.size]

/-- Every successful write leaves a sound file. -/
theorem sound_step (reserves : utils.Reserves layout) (creates : utils.Creates)
    (sound : before.Sound layout file) (writes : WritesTo layout utils file before call after) :
    after.Sound layout file := by
  -- The blocks stay apart, and the size is what the arithmetic of a `uint64_t` leaves.
  obtain ⟨opened, reserved, found, written⟩ := written_of_writesTo reserves creates sound writes
  refine ⟨fun _ => written.exclusive, ?_⟩
  rw [fileSize_after found written]
  exact Nat.mod_lt _ (by decide)

/-- A write sets the size to the end of what was ever written exactly when it appends. -/
theorem size_step_iff (reserves : utils.Reserves layout) (creates : utils.Creates)
    (sound : before.Sound layout file) (writes : WritesTo layout utils file before call after) :
    after.fileSize file = max (before.fileSize file) (call.off + call.buf.length) ↔
      call.Appends (before.fileSize file) := by
  obtain ⟨opened, reserved, found, written⟩ := written_of_writesTo reserves creates sound writes
  rw [fileSize_after found written, WriteCall.Appends, ← List.length_eq_zero_iff]
  -- The range lies in the largest file, so nothing that appends wraps around.
  have range := written.range
  have size := sound.size
  simp only [sizeRange] at size ⊢
  omega

/-- A write that appends leaves a file with blocks for all of its bytes. -/
theorem backed_step (reserves : utils.Reserves layout) (creates : utils.Creates)
    (sound : before.Sound layout file) (backed : before.Backed layout file)
    (writes : WritesTo layout utils file before call after)
    (appends : call.Appends (before.fileSize file)) : after.Backed layout file := by
  -- The size after the write is where the file or the written range ends.
  have law := (size_step_iff reserves creates sound writes).mpr appends
  obtain ⟨opened, reserved, found, written⟩ := written_of_writesTo reserves creates sound writes
  intro used position below
  rw [FileSystem.fileSize, if_pos used] at law
  rw [WriteCall.Appends, ← List.length_eq_zero_iff] at appends
  -- A position belongs to the file as it was opened, or to the written range.
  rcases Nat.lt_or_ge position (before.fileSize file) with old | new
  · rw [← found.size] at old
    obtain ⟨block, held⟩ := Option.isSome_iff_exists.mp (found.covered backed position old)
    exact Option.isSome_iff_exists.mpr ⟨block, written.kept held⟩
  · exact written.held (by omega) (by omega)

/-- Where all of the first pieces have blocks, at least as many blocks are assigned. -/
theorem le_assigned {count : Nat}
    (held : ∀ piece, piece < count → (fs.blocks layout file piece).isSome) :
    count ≤ fs.assigned layout file := by
  rcases Nat.eq_zero_or_pos count with rfl | positive
  · exact Nat.zero_le _
  -- The pieces that block numbers can name are these and others behind them.
  obtain ⟨block, last⟩ := Option.isSome_iff_exists.mp (held (count - 1) (by omega))
  obtain ⟨more, total⟩ := Nat.exists_eq_add_of_le
    (show count ≤ layout.numDirectBlocks + layout.blockSize / numberSize by
      have := piece_lt last
      omega)
  -- Among the first pieces, every one has a block.
  have all : (List.range count).countP (fun piece => (fs.blocks layout file piece).isSome) =
      count := by
    rw [List.countP_eq_length.mpr]
    · exact List.length_range
    · intro piece member
      exact held piece (List.mem_range.mp member)
  rw [FileSystem.assigned, total, List.range_add, List.countP_append, all]
  exact Nat.le_add_right _ _

/-- The size of a file whose bytes have blocks is at most that of its blocks. -/
theorem size_le_assigned (covered : fs.Covered layout file) :
    (fs.inodes file).size ≤ layout.blockSize * fs.assigned layout file := by
  rcases Nat.eq_zero_or_pos (fs.inodes file).size with empty | positive
  · omega
  -- The block of the last byte and all blocks before it are assigned.
  have pieces : ((fs.inodes file).size - 1) / layout.blockSize + 1 ≤ fs.assigned layout file := by
    apply le_assigned
    intro piece below
    have start : piece * layout.blockSize ≤ (fs.inodes file).size - 1 :=
      (Nat.le_div_iff_mul_le layout.blockSize_pos).mp (by omega)
    have held := covered (piece * layout.blockSize) (by omega)
    rwa [Nat.mul_div_cancel _ layout.blockSize_pos] at held
  -- The block of the last byte ends at or behind the size.
  have fits := Nat.lt_mul_div_succ ((fs.inodes file).size - 1) layout.blockSize_pos
  have grows := Nat.mul_le_mul_left layout.blockSize pieces
  omega

/-- A read of a file whose bytes have blocks follows only those, whatever it asks for. -/
theorem minixfsRead_done (covered : fs.Covered layout file) (count : Nat)
    (resolves : utils.getInode fs path = some file)
    (real : utils.isVirtualPath path = none) :
    ∃ result, minixfsRead layout utils clock fs path count off = some result := by
  simp only [minixfsRead, real, resolves]
  split
  · exact ⟨_, rfl⟩
  next more =>
    -- The loop stops at the size of the file.
    have loop := @readBlocks_eq layout fs.dblockCount (off / layout.blockSize)
      (off % layout.blockSize) off
      (min (fs.inodes file).size ((off + count) % sizeRange) - off)
      (min (fs.inodes file).size ((off + count) % sizeRange) - off) (fs.inodes file) fs.data
      (Nat.mod_lt off layout.blockSize_pos) (Nat.le_refl _)
    rw [Nat.div_add_mod'] at loop
    rw [loop fun position _ upper => covered position (by omega)]
    exact ⟨_, rfl⟩

/-- How far the writes of a run reach, starting with a size. -/
def reach (size : Nat) (trace : List (Transition FileSystem WriteCall)) : Nat :=
  (trace.map fun taken => taken.action.off + taken.action.buf.length).foldl max size

/-- After writes that append, the size is as far as they reach. -/
theorem fileSize_of_run (reserves : utils.Reserves layout) (creates : utils.Creates)
    (run : Run (WritesTo layout utils file) origin trace final)
    (sound : origin.Sound layout file)
    (appends : ∀ taken ∈ trace, taken.action.Appends (taken.before.fileSize file)) :
    final.fileSize file = reach (origin.fileSize file) trace := by
  -- The invariant carries both the soundness and the size along the run.
  have both : final.Sound layout file ∧
      ((∀ taken ∈ trace, taken.action.Appends (taken.before.fileSize file)) →
        final.fileSize file = reach (origin.fileSize file) trace) := by
    apply run.history ⟨sound, fun _ => rfl⟩
    intro trace before call after ⟨soundBefore, earlier⟩ writes
    refine ⟨sound_step reserves creates soundBefore writes, fun appends => ?_⟩
    -- The last write reaches its own end, and the ones before it reach the old size.
    have old := earlier fun taken member => appends taken (List.mem_append_left _ member)
    have last := appends ⟨before, call, after⟩ (by simp)
    rw [(size_step_iff reserves creates soundBefore writes).mpr last, old]
    simp [reach]
  exact both.2 appends

/--
In a run of successful writes to a file, each one sets the size to the end of what was ever written
exactly when it appends; and if all do, the size is that end, the blocks of the file hold it, and
no read follows a block number that is not assigned.
-/
theorem size_law_iff (reserves : utils.Reserves layout) (creates : utils.Creates)
    (run : Run (WritesTo layout utils file) origin trace final)
    (sound : origin.Sound layout file) :
    ((∀ taken ∈ trace, taken.after.fileSize file =
        max (taken.before.fileSize file) (taken.action.off + taken.action.buf.length)) ↔
      ∀ taken ∈ trace, taken.action.Appends (taken.before.fileSize file)) ∧
    (origin.Backed layout file →
      (∀ taken ∈ trace, taken.action.Appends (taken.before.fileSize file)) →
      final.fileSize file = reach (origin.fileSize file) trace ∧
        final.fileSize file ≤ layout.blockSize * final.assigned layout file ∧
        ∀ clock path count off, utils.getInode final path = some file →
          utils.isVirtualPath path = none →
          ∃ result, minixfsRead layout utils clock final path count off = some result) := by
  have stays : ∀ before call after, before.Sound layout file →
      WritesTo layout utils file before call after → after.Sound layout file :=
    fun _ _ _ sound writes => sound_step reserves creates sound writes
  constructor
  · -- Each step of the run starts in a sound file.
    refine forall_congr' fun taken => forall_congr' fun member => ?_
    obtain ⟨writes, earlier, reached⟩ := run.split_at member
    exact size_step_iff reserves creates (reached.invariant sound stays) writes
  · intro backed appends
    -- Each write that appends leaves the file backed.
    have held : final.Backed layout file :=
      run.good_of_meets sound stays backed
        (fun _ _ _ sound backed writes meets => backed_step reserves creates sound backed writes meets)
        appends
    refine ⟨fileSize_of_run reserves creates run sound appends, ?_, ?_⟩
    · rw [FileSystem.fileSize]
      split
      next used => exact size_le_assigned (held used)
      · exact Nat.zero_le _
    · intro clock path count off resolves real
      exact minixfsRead_done (held (creates.found_used _ _ _ resolves)) count resolves real

/-- The sample library never creates a file. -/
theorem sampleUtils_creates (layout : Layout) : (sampleUtils layout).Creates where
  found_used fs path file found := by
    simp only [sampleUtils] at found
    split at found
    next known =>
      cases found
      exact known.2
    · cases found
  unused _ _ found := by cases found
  parent_used _ _ _ found := by cases found
  init _ _ := rfl
  single _ _ _ _ := rfl
  direct _ _ _ _ := rfl
  indirect _ _ _ := rfl

/-- The sample file is sound. -/
theorem sample_sound : sampleFileSystem.Sound sampleLayout 0 :=
  ⟨fun _ => sample_wellFormed.exclusive, by decide⟩

/-- A write to the sample file succeeds if its blocks are there. -/
theorem sample_writes (call : WriteCall) (known : call.path = [102])
    (small : (call.off + call.buf.length) / 4 < 2 ^ 31 - 1)
    (fits : call.off + call.buf.length < sizeRange)
    (enough : ((List.range (lastBlock sampleLayout call.off call.buf.length + 1).toNat).all
      fun piece => (sampleFileSystem.blocks sampleLayout 0 piece).isSome) = true) :
    ∃ after, WritesTo sampleLayout (sampleUtils sampleLayout) 0 sampleFileSystem call after := by
  -- The write needs no other blocks than the sample file has.
  have resolves : (sampleUtils sampleLayout).getInode sampleFileSystem call.path = some 0 :=
    if_pos ⟨known, rfl⟩
  obtain ⟨after, done⟩ := minixfsWrite_done (sampleUtils_reserves sampleLayout) resolves
    sample_wellFormed.exclusive small fits (sampleUtils_enough enough)
  refine ⟨after, sampleFileSystem, _, ?_, resolves, done⟩
  rw [openForWrite, resolves]

/-- A byte appended to the six of the sample file. -/
theorem size_law_iff_sample :
    ∃ after, WritesTo sampleLayout (sampleUtils sampleLayout) 0 sampleFileSystem
        ⟨fun _ => 0, [102], [7], 6⟩ after ∧ after.fileSize 0 = 7 ∧
      7 ≤ 4 * after.assigned sampleLayout 0 := by
  obtain ⟨after, writes⟩ := sample_writes ⟨fun _ => 0, [102], [7], 6⟩ rfl (by decide) (by decide)
    (by decide +kernel)
  have law := size_law_iff (sampleUtils_reserves sampleLayout) (sampleUtils_creates sampleLayout)
    (.next .start writes) sample_sound
  have reached : reach (sampleFileSystem.fileSize 0)
      [⟨sampleFileSystem, ⟨fun _ => 0, [102], [7], 6⟩, after⟩] = 7 := rfl
  -- The one write of the run starts at the size of the file.
  obtain ⟨size, blocks, -⟩ := law.2 (fun _ => sample_wellFormed.covered) (by
    intro taken member
    rw [List.mem_singleton.mp member]
    exact .inl rfl)
  have seven : after.fileSize 0 = 7 := size.trans reached
  exact ⟨after, writes, seven, seven ▸ blocks⟩

/--
Overwriting three bytes in the middle of the sample file makes its size 9 instead of 6, which is
more than its two blocks hold, and a read of nine bytes follows a block number that is not there.
-/
theorem overwrite_grows :
    ∃ after, WritesTo sampleLayout (sampleUtils sampleLayout) 0 sampleFileSystem
        ⟨fun _ => 0, [102], [7, 8, 9], 2⟩ after ∧
      sampleFileSystem.fileSize 0 = 6 ∧ after.fileSize 0 = 9 ∧
      after.assigned sampleLayout 0 = 2 ∧
      minixfsRead sampleLayout (sampleUtils sampleLayout) (fun _ => 0) after [102] 9 0 = none := by
  -- The model computes the write and the read after it.
  have run : (minixfsWrite sampleLayout (sampleUtils sampleLayout) (fun _ => 0) sampleFileSystem
      [102] [7, 8, 9] 2).any (fun written => written.returned = 3 ∧
        written.fs.fileSize 0 = 9 ∧ written.fs.assigned sampleLayout 0 = 2 ∧
        (minixfsRead sampleLayout (sampleUtils sampleLayout) (fun _ => 0) written.fs [102] 9
          0).isNone) = true := by
    decide +kernel
  obtain ⟨⟨returned, after, newOff⟩, done, holds⟩ := (Option.any_eq_true _ _).mp run
  obtain ⟨rfl, size, blocks, read⟩ := of_decide_eq_true holds
  have resolves : (sampleUtils sampleLayout).getInode sampleFileSystem [102] = some 0 := by
    decide
  refine ⟨after, ⟨sampleFileSystem, newOff, ?_, resolves, done⟩, rfl, size, blocks,
    Option.isNone_iff_eq_none.mp read⟩
  rw [openForWrite, resolves]

end SystemProgramming.Minixfs
