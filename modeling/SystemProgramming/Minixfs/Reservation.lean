import SystemProgramming.Minixfs.FailedWrites

/-! How many blocks a write reserves, and how many it needs. -/

namespace SystemProgramming.Minixfs

open Foundations

/-- The largest number of blocks that a file can have. -/
def Layout.maxBlocks (layout : Layout) : Nat :=
  layout.numDirectBlocks + layout.blockSize / numberSize

/-- `ceil(size / sizeof(data_block))`, the number of blocks that hold so many bytes. -/
def Layout.blocksFor (layout : Layout) (size : Nat) : Nat :=
  (size + layout.blockSize - 1) / layout.blockSize

namespace FileSystem

/-- How many blocks are not marked in the map. -/
def freeBlocks (fs : FileSystem) : Nat :=
  (List.range fs.dblockCount).countP fun block => fs.dataMap block = 0

/-- How many blocks have to be added to give a file its first pieces, with the indirect one. -/
def missing (fs : FileSystem) (layout : Layout) (file count : Nat) : Nat :=
  ((List.range count).countP fun piece => (fs.blocks layout file piece).isNone) +
    -- A piece behind the direct ones needs an indirect block.
    if layout.numDirectBlocks < count ∧ blockOf fs.dblockCount (fs.inodes file).indirect = none
    then 1 else 0

/-- Every block that belongs to a file or a directory is marked in the map. -/
def Mapped (fs : FileSystem) (layout : Layout) : Prop :=
  ∀ file block, (fs.inodes file).used = true → fs.Owns layout file block → fs.dataMap block ≠ 0

end FileSystem

/--
What `minixfs_min_blockcount` promises: it succeeds exactly if a file can have so many blocks and
enough free ones are left, and then the file has them, and no others that it did not have before.
-/
structure Utils.Allots (utils : Utils) (layout : Layout) : Prop where
  succeeds : ∀ fs path file (count : Nat), utils.getInode fs path = some file →
    fs.Exclusive layout file → fs.Mapped layout →
    ((utils.minixfsMinBlockcount fs path count).1 = 0 ↔
      count ≤ layout.maxBlocks ∧ fs.missing layout file count ≤ fs.freeBlocks)
  reserved : ∀ fs path file (count : Nat) after, utils.getInode fs path = some file →
    fs.Exclusive layout file → fs.Mapped layout →
    utils.minixfsMinBlockcount fs path count = (0, after) →
    Reserved layout file count fs after ∧ ∀ piece, (after.blocks layout file piece).isSome →
      piece < count ∨ (fs.blocks layout file piece).isSome

/--
A write succeeds if the blocks for all bytes up to its end are there or free, and after one that
succeeds the file has only these blocks and those that it had before.
-/
def ReservesExactly (layout : Layout) (utils : Utils) (clock : Nat → Nat) (fs : FileSystem)
    (path : Path) (file off : Nat) (buf : List UInt8) : Prop :=
  (fs.missing layout file (layout.blocksFor (off + buf.length)) ≤ fs.freeBlocks →
    ∃ after newOff, minixfsWrite layout utils clock fs path buf off =
      some ⟨buf.length, after, newOff⟩) ∧
  ∀ after newOff, minixfsWrite layout utils clock fs path buf off =
      some ⟨buf.length, after, newOff⟩ →
    ∀ piece, (after.blocks layout file piece).isSome →
      piece < layout.blocksFor (off + buf.length) ∨ (fs.blocks layout file piece).isSome

variable {layout : Layout} {utils : Utils} {clock : Nat → Nat} {path : Path} {buf : List UInt8}
  {file block piece count size off : Nat} {fs after : FileSystem}

/-- Bytes that fill blocks need these blocks. -/
theorem blocksFor_of_dvd (whole : layout.blockSize ∣ size) :
    layout.blocksFor size = size / layout.blockSize := by
  -- What is added to round up is less than a block.
  have positive := layout.blockSize_pos
  obtain ⟨blocks, rfl⟩ := whole
  rw [Layout.blocksFor, Nat.add_sub_assoc positive, Nat.mul_add_div positive,
    Nat.mul_div_cancel_left _ positive, Nat.div_eq_of_lt (by omega), Nat.add_zero]

/-- Bytes that end inside a block need that block too. -/
theorem blocksFor_of_not_dvd (inside : ¬ layout.blockSize ∣ size) :
    layout.blocksFor size = size / layout.blockSize + 1 := by
  have positive := layout.blockSize_pos
  -- There is at least one byte in the last block.
  have some_left := Nat.pos_of_ne_zero fun none => inside (Nat.dvd_of_mod_eq_zero none)
  have whole := Nat.div_add_mod size layout.blockSize
  have below := Nat.mod_lt size positive
  have round : size + layout.blockSize - 1 = layout.blockSize * (size / layout.blockSize + 1) +
      (size % layout.blockSize - 1) := by
    rw [Nat.mul_succ]
    omega
  have rest : (size % layout.blockSize - 1) / layout.blockSize = 0 := Nat.div_eq_of_lt (by omega)
  rw [Layout.blocksFor, round, Nat.mul_add_div positive, rest, Nat.add_zero]

/-- A piece with a block that lies behind the direct ones is named by an indirect block. -/
theorem indirect_of_held (held : (fs.blocks layout file piece).isSome)
    (behind : layout.numDirectBlocks ≤ piece) :
    blockOf fs.dblockCount (fs.inodes file).indirect ≠ none := by
  -- Without the indirect block, there would be no entry for the piece.
  intro none
  rw [FileSystem.blocks, dataBlock_indirect behind, none, Option.bind_none, ite_self] at held
  cases held

/-- One piece more does not need fewer blocks. -/
theorem missing_le_succ : fs.missing layout file count ≤ fs.missing layout file (count + 1) := by
  -- Both the pieces and the indirect block can only be more.
  rw [FileSystem.missing, FileSystem.missing, List.range_succ, List.countP_append]
  refine Nat.add_le_add (Nat.le_add_right _ _) ?_
  split
  next needed => rw [if_pos ⟨by omega, needed.2⟩]
  · exact Nat.zero_le _

/-- A piece that has a block needs none. -/
theorem missing_succ (held : (fs.blocks layout file count).isSome) :
    fs.missing layout file (count + 1) = fs.missing layout file count := by
  -- Behind the direct pieces, the indirect block is there already.
  have table : layout.numDirectBlocks ≤ count →
      blockOf fs.dblockCount (fs.inodes file).indirect ≠ none := indirect_of_held held
  rw [FileSystem.missing, FileSystem.missing, List.range_succ, List.countP_append,
    List.countP_singleton, Option.isNone_iff_eq_none.not.mpr (Option.isSome_iff_ne_none.mp held) |>
      eq_false_of_ne_true, if_neg Bool.false_ne_true, Nat.add_zero,
    if_neg fun needed => table (by omega) needed.2, if_neg fun needed => table (by omega) needed.2]

/-- What a write asks for: a block more than fit in front of its end. -/
theorem asked_eq (counted : layout.maxBlocks < 2 ^ 31 - 1)
    (within : off + count ≤ layout.blockSize * layout.maxBlocks) :
    lastBlock layout off count + 1 = (((off + count) / layout.blockSize + 1 : Nat) : Int) := by
  -- The number of blocks is an `int`, and the largest file is not too large for a `size_t`.
  have few : (off + count) / layout.blockSize ≤ layout.maxBlocks :=
    Nat.div_le_of_le_mul within
  have largest : layout.blockSize * layout.maxBlocks < 2 ^ 62 := layout.largest_file
  rw [lastBlock_eq (by omega) (by simp only [sizeRange]; omega)]
  rfl

section Exactness

variable (allots : utils.Allots layout) (counted : layout.maxBlocks < 2 ^ 31 - 1)
  (resolves : utils.getInode fs path = some file) (exclusive : fs.Exclusive layout file)
  (mapped : fs.Mapped layout) (within : off + buf.length ≤ layout.blockSize * layout.maxBlocks)

include allots counted resolves exclusive mapped within

/-- A write succeeds if the blocks that it asks for can be had. -/
theorem minixfsWrite_of_room (few : (off + buf.length) / layout.blockSize < layout.maxBlocks)
    (room : fs.missing layout file ((off + buf.length) / layout.blockSize + 1) ≤ fs.freeBlocks) :
    ∃ after newOff, minixfsWrite layout utils clock fs path buf off =
      some ⟨buf.length, after, newOff⟩ := by
  have asked := asked_eq counted within
  have largest : layout.blockSize * layout.maxBlocks < 2 ^ 62 := layout.largest_file
  -- The library has the blocks, so it reserves them.
  have success := (allots.succeeds fs path file _ resolves exclusive mapped).mpr ⟨few, room⟩
  obtain ⟨promise, -⟩ := allots.reserved fs path file _ _ resolves exclusive mapped
    (Prod.ext success rfl)
  obtain ⟨after, done⟩ := minixfsWrite_of_reserved resolves (asked ▸ promise) (by omega)
    (by simp only [sizeRange]; omega) (asked ▸ Prod.ext success rfl)
  exact ⟨after, _, done⟩

/-- A write that succeeds has reserved the blocks that it asked for, and no others. -/
theorem room_of_minixfsWrite {newOff : Nat}
    (done : minixfsWrite layout utils clock fs path buf off = some ⟨buf.length, after, newOff⟩) :
    fs.missing layout file ((off + buf.length) / layout.blockSize + 1) ≤ fs.freeBlocks ∧
      (after.blocks layout file ((off + buf.length) / layout.blockSize)).isSome ∧
      ∀ piece, (after.blocks layout file piece).isSome →
        piece < (off + buf.length) / layout.blockSize + 1 ∨
          (fs.blocks layout file piece).isSome := by
  have asked := asked_eq counted within
  have named : openForWrite layout utils clock fs path = some (some file, fs) := by
    rw [openForWrite, resolves]
  -- Everything that is written is written to blocks that are reserved.
  obtain ⟨⟨reserved, written⟩, -⟩ := written_of_reserved (fun reserved granted =>
    asked ▸ (allots.reserved fs path file _ reserved resolves exclusive mapped
      (asked ▸ granted)).1) named done
  have granted := written.asked
  rw [asked] at granted
  have room := (allots.succeeds fs path file _ resolves exclusive mapped).mp
    (congrArg Prod.fst granted)
  obtain ⟨promise, only⟩ := allots.reserved fs path file _ _ resolves exclusive mapped granted
  rw [written.blocks]
  exact ⟨room.2, promise.enough _ (by omega), only⟩

/-- A write succeeds if the blocks that it needs can be had, and it asks for no more than these. -/
theorem minixfsWrite_of_exact
    (condition : ¬ layout.blockSize ∣ off + buf.length ∨
      (fs.blocks layout file ((off + buf.length) / layout.blockSize)).isSome)
    (room : fs.missing layout file (layout.blocksFor (off + buf.length)) ≤ fs.freeBlocks) :
    ∃ after newOff, minixfsWrite layout utils clock fs path buf off =
      some ⟨buf.length, after, newOff⟩ := by
  apply minixfsWrite_of_room allots counted resolves exclusive mapped within
  · rcases condition with inside | held
    · refine Nat.div_lt_of_lt_mul (Nat.lt_of_le_of_ne within fun full => inside ?_)
      exact full ▸ Nat.dvd_mul_right _ _
    · obtain ⟨block, found⟩ := Option.isSome_iff_exists.mp held
      exact piece_lt found
  · by_cases whole : layout.blockSize ∣ off + buf.length
    · -- The block that is asked for, and not needed, is there.
      rw [blocksFor_of_dvd whole] at room
      rw [missing_succ (condition.resolve_left (not_not_intro whole))]
      exact room
    · rwa [blocksFor_of_not_dvd whole] at room

/-- After a write that asks for a block too many, and could not have got it, that block is not new. -/
theorem needed_of_exact {newOff : Nat}
    (condition : ¬ layout.blockSize ∣ off + buf.length ∨
      (fs.blocks layout file ((off + buf.length) / layout.blockSize)).isSome ∨
      fs.freeBlocks < fs.missing layout file (layout.blocksFor (off + buf.length)))
    (done : minixfsWrite layout utils clock fs path buf off = some ⟨buf.length, after, newOff⟩)
    (held : (after.blocks layout file piece).isSome) :
    piece < layout.blocksFor (off + buf.length) ∨ (fs.blocks layout file piece).isSome := by
  obtain ⟨room, -, only⟩ :=
    room_of_minixfsWrite allots counted resolves exclusive mapped within done
  rcases only piece held with below | before
  · by_cases whole : layout.blockSize ∣ off + buf.length
    · rw [blocksFor_of_dvd whole] at condition ⊢
      rcases Nat.lt_or_eq_of_le (Nat.le_of_lt_succ below) with less | rfl
      · exact .inl less
      · -- The piece behind the end had a block, or it could not have got one.
        have more := @missing_le_succ layout file ((off + buf.length) / layout.blockSize) fs
        rcases condition with inside | before | short
        · exact absurd whole inside
        · exact .inr before
        · omega
    · rw [blocksFor_of_not_dvd whole]
      exact .inl below
  · exact .inr before

/--
A write reserves exactly the blocks that its range needs, unless its end is a block boundary behind
the blocks of the file and those up to there can be had: then it asks for one block too many.
-/
theorem reservation_exact_iff :
    ReservesExactly layout utils clock fs path file off buf ↔
      ¬ layout.blockSize ∣ off + buf.length ∨
      (fs.blocks layout file ((off + buf.length) / layout.blockSize)).isSome ∨
      fs.freeBlocks < fs.missing layout file (layout.blocksFor (off + buf.length)) := by
  constructor
  · rintro ⟨succeeds, only⟩
    by_contra! surplus
    obtain ⟨whole, absent, room⟩ := surplus
    -- The write succeeds, and leaves a block for the piece behind its end.
    obtain ⟨after, newOff, done⟩ := succeeds room
    obtain ⟨-, held, -⟩ :=
      room_of_minixfsWrite allots counted resolves exclusive mapped within done
    rcases only after newOff done _ held with below | before
    · rw [blocksFor_of_dvd whole] at below
      exact Nat.lt_irrefl _ below
    · exact absent before
  · intro condition
    constructor
    · intro room
      have exact := or_assoc.mpr condition |>.resolve_right (Nat.not_lt_of_le room)
      exact minixfsWrite_of_exact allots counted resolves exclusive mapped within exact room
    · intro after newOff done piece held
      exact needed_of_exact allots counted resolves exclusive mapped within condition done held

end Exactness

/-- Blocks of two bytes, one for each file. -/
def boxLayout : Layout where
  blockSize := 2
  numDirectBlocks := 1
  dataNumber := 1
  fileNameEntry := 2
  blockSize_pos := by decide
  largest_file := by decide

/-- A library for file systems with one file, which is given its block when it needs one. -/
def boxUtils : Utils :=
  { sampleUtils boxLayout with
    minixfsMinBlockcount := fun fs path =>
      reserveFirst boxLayout fs ((sampleUtils boxLayout).getInode fs path) }

/-- A file system with one file, which is empty, and one block, which is free. -/
def emptyBox : FileSystem where
  dblockCount := 1
  dataMap _ := 0
  inodes
    | 0 => ⟨true, 0, fun _ => unassignedNode, unassignedNode, 0, 0⟩
    | _ => ⟨false, 0, fun _ => unassignedNode, unassignedNode, 0, 0⟩
  data _ := 0

/-- A file can have its first block only. -/
theorem box_piece (held : fs.blocks boxLayout file piece = some block) : piece = 0 := by
  have below : piece < 1 + 2 / 4 := piece_lt held
  omega

/-- What is missing for the first piece is its block. -/
theorem box_missing (absent : fs.blocks boxLayout file 0 = none) :
    fs.missing boxLayout file 1 = 1 := by
  have direct : ¬ boxLayout.numDirectBlocks < 1 := by decide
  simp [FileSystem.missing, absent, direct]

/-- A free block is found if there is one. -/
theorem firstUnusedData_isSome_iff : (firstUnusedData fs).isSome ↔ 1 ≤ fs.freeBlocks := by
  rw [firstUnusedData, List.find?_isSome, FileSystem.freeBlocks, Nat.one_le_iff_ne_zero,
    ← Nat.pos_iff_ne_zero, List.countP_pos_iff]

/-- The block that is added to the file is its own. -/
theorem box_reserved (exclusive : fs.Exclusive boxLayout file) (mapped : fs.Mapped boxLayout)
    (used : (fs.inodes file).used = true) (absent : fs.blocks boxLayout file 0 = none)
    (free : firstUnusedData fs = some block) :
    Reserved boxLayout file 1 fs (fs.addDirect file 0 block) := by
  have unmarked : fs.dataMap block = 0 := by simpa using List.find?_some free
  have inside : block < fs.dblockCount := List.mem_range.mp (List.mem_of_find?_eq_some free)
  have new : (fs.addDirect file 0 block).blocks boxLayout file 0 = some block := by
    simp [FileSystem.blocks, dataBlock, FileSystem.addDirect, FileSystem.setInode, blockOf,
      boxLayout, inside]
  have indirect : ((fs.addDirect file 0 block).inodes file).indirect =
      (fs.inodes file).indirect := by
    simp [FileSystem.addDirect]
  have others : ∀ other, other ≠ file →
      (fs.addDirect file 0 block).inodes other = fs.inodes other :=
    fun other differ => FileSystem.setInode_other differ
  -- The new block is none of those that files in use have.
  have unowned : ∀ other, (fs.inodes other).used = true → ¬ fs.Owns boxLayout other block :=
    fun other used owned => mapped other block used owned unmarked
  refine ⟨⟨⟨?_, ?_⟩, ?_⟩, ?_, ?_, ?_, ?_, rfl, ?_⟩
  · intro piece other shared one two
    rw [box_piece one, box_piece two]
  · intro piece shared held table
    obtain rfl := box_piece held
    obtain rfl := Option.some.inj (new.symm.trans held)
    rw [indirect] at table
    exact unowned file used (.inr table)
  · intro other differ marked shared mine yours
    rw [others other differ] at marked
    have same : (fs.addDirect file 0 block).Owns boxLayout other shared ↔
        fs.Owns boxLayout other shared :=
      owns_congr rfl (others other differ) fun _ _ _ _ => rfl
    have before := same.mp yours
    rcases mine with ⟨piece, held⟩ | table
    · obtain rfl := box_piece held
      obtain rfl := Option.some.inj (new.symm.trans held)
      exact unowned other marked before
    · rw [indirect] at table
      exact exclusive.alone other differ marked shared (.inr table) before
  · intro piece below
    obtain rfl : piece = 0 := by omega
    rw [new]
    rfl
  · intro piece shared held
    obtain rfl := box_piece held
    rw [absent] at held
    cases held
  · simp [FileSystem.addDirect]
  · simp [FileSystem.addDirect]
  · intro other differ _
    exact ⟨others other differ, fun _ _ _ _ => rfl⟩

/-- A request for a file that is found is one for its first block, or for too many. -/
theorem box_asks (resolves : boxUtils.getInode fs path = some file) (count : Int) :
    boxUtils.minixfsMinBlockcount fs path count = reserveFirst boxLayout fs (some file) count :=
  congrArg (fun found => reserveFirst boxLayout fs found count) resolves

/-- The library succeeds if a file can have the blocks, and enough are free. -/
theorem box_succeeds (count : Nat) :
    (reserveFirst boxLayout fs (some file) count).1 = 0 ↔
      count ≤ boxLayout.maxBlocks ∧ fs.missing boxLayout file count ≤ fs.freeBlocks := by
  -- No file has more than one piece.
  have few : boxLayout.maxBlocks = 1 := by decide
  rw [few]
  rcases count with _ | _ | count
  · simp [reserveFirst, FileSystem.missing]
  · cases held : fs.blocks boxLayout file 0 with
    | some block =>
      have none : fs.missing boxLayout file (0 + 1) = 0 := by
        rw [missing_succ (by rw [held]; rfl)]
        rfl
      simp [reserveFirst, held, none]
    | none =>
      have free := @firstUnusedData_isSome_iff fs
      rw [Nat.zero_add, box_missing held, ← free]
      cases found : firstUnusedData fs <;> simp [reserveFirst, held, found]
  · have large : ¬ ((count + 1 + 1 : Nat) : Int) ≤ 0 ∧ ((count + 1 + 1 : Nat) : Int) ≠ 1 := by
      omega
    simp only [reserveFirst, large.1, large.2, false_and, or_self, if_false]
    refine iff_of_false (by decide) ?_
    omega

/-- The library keeps what is promised of reservations. -/
theorem boxUtils_allots : boxUtils.Allots boxLayout := by
  have known : ∀ fs path file, boxUtils.getInode fs path = some file →
      (fs.inodes file).used = true := (sampleUtils_creates boxLayout).found_used
  constructor
  · intro fs path file count resolves _ _
    rw [box_asks resolves]
    exact box_succeeds count
  · intro fs path file count after resolves exclusive mapped asked
    rw [box_asks resolves, reserveFirst] at asked
    split at asked
    next enough =>
      obtain ⟨-, rfl⟩ := Prod.mk.inj asked
      -- The file has what it needs.
      refine ⟨⟨exclusive, fun piece below => ?_, fun _ _ held => ⟨held, fun _ _ => rfl⟩, rfl, rfl, rfl,
        fun _ _ _ => ⟨rfl, fun _ _ _ _ => rfl⟩⟩, fun _ held => .inr held⟩
      rcases enough with none | ⟨one, held⟩
      · omega
      · obtain rfl : piece = 0 := by omega
        exact held
    next more =>
      split at asked
      next one =>
        obtain rfl : count = 1 := by omega
        split at asked
        next block free =>
          obtain ⟨-, rfl⟩ := Prod.mk.inj asked
          have absent : fs.blocks boxLayout file 0 = none := by simpa using more
          refine ⟨box_reserved exclusive mapped (known fs path file resolves) absent free,
            fun piece held => .inl ?_⟩
          obtain ⟨shared, found⟩ := Option.isSome_iff_exists.mp held
          rw [box_piece found]
          exact Nat.zero_lt_one
        · cases asked
      · cases asked

/-- The file in the box is well formed. -/
theorem emptyBox_wellFormed :
    emptyBox.Exclusive boxLayout 0 ∧ emptyBox.Mapped boxLayout := by
  have none : ∀ piece, emptyBox.blocks boxLayout 0 piece = none :=
    empty_blocks rfl rfl
  have nothing : ∀ block, ¬ emptyBox.Owns boxLayout 0 block := by
    rintro block (⟨piece, held⟩ | table)
    · cases (none piece).symm.trans held
    · cases table
  refine ⟨⟨⟨?_, ?_⟩, ?_⟩, ?_⟩
  · intro piece other shared held _
    cases (none piece).symm.trans held
  · intro piece shared held
    cases (none piece).symm.trans held
  · intro other _ _ block owned
    exact absurd owned (nothing block)
  · intro file block used owned
    -- No other inode is in use.
    cases file with
    | zero => exact absurd owned (nothing block)
    | succ file => cases used

/-- One byte takes the free block. -/
theorem reservation_exact_iff_box :
    ReservesExactly boxLayout boxUtils (fun _ => 0) emptyBox [102] 0 0 [7] :=
  (reservation_exact_iff boxUtils_allots (by decide) rfl emptyBox_wellFormed.1
    emptyBox_wellFormed.2 (by decide)).mpr (.inl (by decide))

/-- Two bytes fill the largest file; they fit in the free block, but the write fails. -/
theorem full_file_refused :
    emptyBox.missing boxLayout 0 (boxLayout.blocksFor 2) ≤ emptyBox.freeBlocks ∧
      minixfsWrite boxLayout boxUtils (fun _ => 0) emptyBox [102] [7, 8] 0 =
        some ⟨-1, emptyBox, 0⟩ ∧
      ¬ ReservesExactly boxLayout boxUtils (fun _ => 0) emptyBox [102] 0 0 [7, 8] := by
  have room : emptyBox.missing boxLayout 0 (boxLayout.blocksFor 2) ≤ emptyBox.freeBlocks := by
    decide +kernel
  have refused : minixfsWrite boxLayout boxUtils (fun _ => 0) emptyBox [102] [7, 8] 0 =
      some ⟨-1, emptyBox, 0⟩ := rfl
  refine ⟨room, refused, fun ⟨succeeds, _⟩ => ?_⟩
  obtain ⟨after, newOff, done⟩ := succeeds room
  rw [refused] at done
  cases done

end SystemProgramming.Minixfs
