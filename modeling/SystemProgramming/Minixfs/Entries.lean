import SystemProgramming.Minixfs.Creation

/-! Where the entry of a new file is stored in its directory. -/

namespace SystemProgramming.Minixfs

open Foundations

/-- A free data block is marked in the map, and its number is returned. -/
structure Taken (before after : FileSystem) (number : Int) (block : Nat) : Prop where
  number : number = block
  inside : block < before.dblockCount
  free : before.dataMap block = 0
  marked : after.dataMap block ≠ 0
  others : ∀ other, other ≠ block → after.dataMap other = before.dataMap other
  area : after.dblockCount = before.dblockCount

/-- The library adds a free block at the first entry that names none, and changes nothing else. -/
structure Utils.Assigns (utils : Utils) (layout : Layout) : Prop where
  single : ∀ fs parent number after, (fs.inodes parent).indirect = unassignedNode →
    utils.addSingleIndirectBlock fs parent = (number, after) → number ≠ -1 →
    ∃ table, Taken fs after number table ∧
      after.inodes =
        Function.update fs.inodes parent { fs.inodes parent with indirect := number } ∧
      (∀ entry, entry < layout.blockSize / numberSize →
        tableEntry layout after.data table entry = unassignedNode) ∧
      ∀ other, other ≠ table → fs.Keeps after layout other
  direct : ∀ fs parent number after, utils.addDataBlockToInode fs parent = (number, after) →
    number ≠ -1 →
    ∃ piece block, Taken fs after number block ∧ piece < layout.numDirectBlocks ∧
      (fs.inodes parent).direct piece = unassignedNode ∧
      (∀ earlier, earlier < piece → (fs.inodes parent).direct earlier ≠ unassignedNode) ∧
      after.inodes = Function.update fs.inodes parent
        { fs.inodes parent with
          direct := Function.update (fs.inodes parent).direct piece number } ∧
      ∀ other, other ≠ block → fs.Keeps after layout other
  indirect : ∀ fs named number after table, blockOf fs.dblockCount named = some table →
    utils.addDataBlockToIndirectBlock fs named = (number, after) → number ≠ -1 →
    ∃ entry block, Taken fs after number block ∧ entry < layout.blockSize / numberSize ∧
      tableEntry layout fs.data table entry = unassignedNode ∧
      (∀ earlier, earlier < entry → tableEntry layout fs.data table earlier ≠ unassignedNode) ∧
      after.inodes = fs.inodes ∧
      (∀ other, other < layout.blockSize / numberSize →
        tableEntry layout after.data table other =
          if other = entry then number else tableEntry layout fs.data table other) ∧
      ∀ other, other ≠ block → other ≠ table → fs.Keeps after layout other

/-- Entries have their size, and a block holds a whole number of them. -/
structure Utils.Dirents (utils : Utils) (layout : Layout) : Prop where
  length : ∀ name number, (utils.makeStringFromDirent name number).length = layout.fileNameEntry
  divides : layout.fileNameEntry ∣ layout.blockSize

/-- A well-formed directory: it consists of entries, and it has no block behind its last one. -/
structure FileSystem.Directory (fs : FileSystem) (layout : Layout) (parent : Nat) : Prop where
  wellFormed : fs.WellFormed layout parent
  mapped : ∀ block, fs.Owns layout parent block → fs.dataMap block ≠ 0
  whole : layout.fileNameEntry ∣ (fs.inodes parent).size
  direct : ∀ piece, piece < layout.numDirectBlocks →
    (fs.inodes parent).size ≤ piece * layout.blockSize →
    (fs.inodes parent).direct piece = unassignedNode
  table : (fs.inodes parent).indirect = unassignedNode ∨
    ∃ table, blockOf fs.dblockCount (fs.inodes parent).indirect = some table
  indirect : ∀ table entry, blockOf fs.dblockCount (fs.inodes parent).indirect = some table →
    entry < layout.blockSize / numberSize →
    (fs.inodes parent).size ≤ (layout.numDirectBlocks + entry) * layout.blockSize →
    tableEntry layout fs.data table entry = unassignedNode

section Statement

variable (layout : Layout) (utils : Utils)

/-- The file system with the blocks that the library has added to the parent. -/
def supplied (fs : FileSystem) (parent numUnused : Nat) : FileSystem :=
  if nextOffset layout fs parent = 0 then (granted layout utils fs parent numUnused).2
  else prepared layout utils fs parent numUnused

/--
The contents of the directory are the old ones followed by the new entry, stored in a block of the
directory, and every other block is unchanged; the indirect block is the one that the library left.
-/
structure EntryAdded (fs : FileSystem) (parent : Nat) (name : Path) (numUnused : Nat)
    (after : FileSystem) : Prop where
  old : ∀ position, position < (fs.inodes parent).size →
    after.contents layout parent position = fs.contents layout parent position
  new : (after.contents layout parent).readBytes (fs.inodes parent).size layout.fileNameEntry =
    utils.makeStringFromDirent name numUnused
  block : ∃ block, after.blocks layout parent ((fs.inodes parent).size / layout.blockSize) =
      some block ∧
    ∀ other, other ≠ block →
      blockOf after.dblockCount (after.inodes parent).indirect ≠ some other →
      fs.Keeps after layout other
  table : ∀ table, blockOf after.dblockCount (after.inodes parent).indirect = some table →
    (supplied layout utils fs parent numUnused).Keeps after layout table
  size : (after.inodes parent).size = (fs.inodes parent).size + layout.fileNameEntry

/--
The entry goes to the block of the parent: it does not start a piece, or the block that is added
for it is the first one of the data area, or both of these blocks begin with the entry already.
-/
def EntryInPlace (fs : FileSystem) (parent : Nat) (name : Path) (numUnused : Nat) : Prop :=
  nextOffset layout fs parent ≠ 0 ∨ (granted layout utils fs parent numUnused).1 = 0 ∨
    ((granted layout utils fs parent numUnused).2.data.readBytes
        ((granted layout utils fs parent numUnused).1.toNat * layout.blockSize)
        layout.fileNameEntry = utils.makeStringFromDirent name numUnused ∧
      (granted layout utils fs parent numUnused).2.data.readBytes 0 layout.fileNameEntry =
        utils.makeStringFromDirent name numUnused)

end Statement

/-- What the parent is when a place for the entry is looked for. -/
structure Prepared (layout : Layout) (parent : Nat) (fs ready : FileSystem) : Prop where
  size : (ready.inodes parent).size = (fs.inodes parent).size
  direct : (ready.inodes parent).direct = (fs.inodes parent).direct
  area : ready.dblockCount = fs.dblockCount
  blocks : ready.blocks layout parent = fs.blocks layout parent
  apart : Apart layout ready.dblockCount (ready.inodes parent) ready.data
  mapped : ∀ block, ready.Owns layout parent block → ready.dataMap block ≠ 0
  kept : ∀ block, blockOf ready.dblockCount (ready.inodes parent).indirect ≠ some block →
    fs.Keeps ready layout block
  table : layout.numDirectBlocks ≤ (fs.inodes parent).size / layout.blockSize →
    ∃ table, blockOf ready.dblockCount (ready.inodes parent).indirect = some table
  indirect : ∀ table entry, blockOf ready.dblockCount (ready.inodes parent).indirect = some table →
    entry < layout.blockSize / numberSize →
    (fs.inodes parent).size ≤ (layout.numDirectBlocks + entry) * layout.blockSize →
    tableEntry layout ready.data table entry = unassignedNode

/-- What adding a block to the parent does. -/
structure Grows (layout : Layout) (parent piece block : Nat) (before after : FileSystem) :
    Prop where
  size : (after.inodes parent).size = (before.inodes parent).size
  blocks : after.blocks layout parent =
    Function.update (before.blocks layout parent) piece (some block)
  table : blockOf after.dblockCount (after.inodes parent).indirect =
    blockOf before.dblockCount (before.inodes parent).indirect
  free : before.dataMap block = 0
  kept : ∀ other, other ≠ block →
    blockOf before.dblockCount (before.inodes parent).indirect ≠ some other →
    before.Keeps after layout other

/-- The parent has a block for its next entry, and all of its bytes are what they were. -/
structure Supplied (layout : Layout) (parent block : Nat) (fs ready : FileSystem) : Prop where
  size : (ready.inodes parent).size = (fs.inodes parent).size
  held : ready.blocks layout parent ((fs.inodes parent).size / layout.blockSize) = some block
  apart : Apart layout ready.dblockCount (ready.inodes parent) ready.data
  contents : ∀ position, position < (fs.inodes parent).size →
    ready.contents layout parent position = fs.contents layout parent position
  others : ∀ other, other ≠ block →
    blockOf ready.dblockCount (ready.inodes parent).indirect ≠ some other →
    fs.Keeps ready layout other

variable {layout : Layout} {utils : Utils} {clock : Nat → Nat} {path name : Path}
  {parent numUnused piece block : Nat} {number : Int} {fs ready given after : FileSystem}

/-- A byte of a file is the one in its block. -/
theorem contents_of_held {position : Nat}
    (held : fs.blocks layout parent (position / layout.blockSize) = some block) :
    fs.contents layout parent position =
      fs.data (block * layout.blockSize + position % layout.blockSize) := by
  have place := @BlockMap.view_of_piece _ _ _ _ _ fs.data held
    (Nat.mod_lt position layout.blockSize_pos)
  rwa [Nat.div_add_mod'] at place

/-- A block that a piece is held by keeps its bytes until the entry is stored. -/
theorem Prepared.kept_of_held (before : Prepared layout parent fs ready)
    (held : fs.blocks layout parent piece = some block) : fs.Keeps ready layout block := by
  -- It is another block than the indirect one.
  apply before.kept
  apply before.apart.table piece
  rw [← FileSystem.blocks, before.blocks, held]

/-- Every piece of the directory in front of its end has a block. -/
theorem FileSystem.Directory.held (directory : fs.Directory layout parent)
    (below : piece < (fs.inodes parent).size / layout.blockSize) :
    ∃ block, fs.blocks layout parent piece = some block := by
  -- The first byte of the piece lies in the directory.
  have first : piece * layout.blockSize < (fs.inodes parent).size :=
    Nat.lt_of_lt_of_le (Nat.mul_lt_mul_of_pos_right below layout.blockSize_pos)
      (Nat.div_mul_le_self _ _)
  have covered := directory.wellFormed.covered _ first
  rw [Nat.mul_div_cancel _ layout.blockSize_pos] at covered
  exact Option.isSome_iff_exists.mp covered

/-- The bytes of the directory stay the same while their blocks do. -/
theorem contents_kept (directory : fs.Directory layout parent)
    (kept : ∀ piece block, fs.blocks layout parent piece = some block →
      (∃ position, position < (fs.inodes parent).size ∧ position / layout.blockSize = piece) →
      ready.blocks layout parent piece = some block ∧ fs.Keeps ready layout block)
    {position : Nat} (below : position < (fs.inodes parent).size) :
    ready.contents layout parent position = fs.contents layout parent position := by
  obtain ⟨block, held⟩ := Option.isSome_iff_exists.mp (directory.wellFormed.covered position below)
  obtain ⟨still, same⟩ := kept _ _ held ⟨position, below, rfl⟩
  rw [contents_of_held held, contents_of_held still]
  -- The byte is one of the block.
  apply same
  exact (BlockMap.div_mod_of_offset (Nat.mod_lt _ layout.blockSize_pos)).1

/-- The block for an entry that does not start a piece is there. -/
theorem Prepared.supplied (directory : fs.Directory layout parent)
    (before : Prepared layout parent fs ready)
    (held : ready.blocks layout parent ((fs.inodes parent).size / layout.blockSize) = some block) :
    Supplied layout parent block fs ready where
  size := before.size
  held := held
  apart := before.apart
  contents position below := by
    refine contents_kept directory (fun piece block held _ => ?_) below
    rw [before.blocks]
    exact ⟨held, before.kept_of_held held⟩
  others other _ := before.kept other

/-- A free block is none of those that the directory has. -/
theorem Prepared.unowned (before : Prepared layout parent fs ready)
    (free : ready.dataMap block = 0) : ¬ ready.Owns layout parent block :=
  fun owned => before.mapped block owned free

/-- The new piece has the new block. -/
theorem Grows.new (grows : Grows layout parent piece block ready given) :
    given.blocks layout parent piece = some block := by
  rw [grows.blocks, Function.update_self]

/-- Every other piece has the block that it had. -/
theorem Grows.old {other : Nat} (grows : Grows layout parent piece block ready given)
    (differ : other ≠ piece) :
    given.blocks layout parent other = ready.blocks layout parent other := by
  rw [grows.blocks, Function.update_of_ne differ]

/-- With the new block, the blocks of the directory are still different ones. -/
theorem Prepared.apart_grown (before : Prepared layout parent fs ready)
    (grows : Grows layout parent piece block ready given) :
    Apart layout given.dblockCount (given.inodes parent) given.data := by
  have unowned := before.unowned grows.free
  -- A piece that had its block before has another one than the new piece.
  have differs : ∀ {other}, other ≠ piece → given.blocks layout parent other ≠ some block :=
    fun differ held => unowned (.inl ⟨_, (grows.old differ).symm.trans held⟩)
  constructor
  · intro first second shared one two
    rw [← FileSystem.blocks] at one two
    by_cases here : first = piece
    · by_contra apart
      have there : second ≠ piece := fun same => apart (here.trans same.symm)
      rw [here, grows.new] at one
      exact differs there (two.trans one.symm)
    · by_cases there : second = piece
      · rw [there, grows.new] at two
        exact absurd (one.trans two.symm) (differs here)
      · rw [grows.old here] at one
        rw [grows.old there] at two
        exact before.apart.distinct _ _ _ one two
  · intro other shared held
    rw [← FileSystem.blocks] at held
    rw [grows.table]
    by_cases here : other = piece
    · rw [here, grows.new] at held
      rw [← held]
      exact fun table => unowned (.inr table)
    · rw [grows.old here] at held
      exact before.apart.table other shared held

/-- A directory whose size is a whole number of blocks ends with a block. -/
theorem size_of_start (start : nextOffset layout fs parent = 0) :
    (fs.inodes parent).size = (fs.inodes parent).size / layout.blockSize * layout.blockSize := by
  have whole := Nat.div_add_mod' (fs.inodes parent).size layout.blockSize
  rw [nextOffset] at start
  omega

/-- The block for an entry that starts a piece is the one that was added. -/
theorem Prepared.grown (directory : fs.Directory layout parent)
    (before : Prepared layout parent fs ready) (start : nextOffset layout fs parent = 0)
    (grows : Grows layout parent ((fs.inodes parent).size / layout.blockSize) block ready given) :
    Supplied layout parent block fs given where
  size := by rw [grows.size, before.size]
  held := grows.new
  apart := before.apart_grown grows
  contents position below := by
    refine contents_kept directory (fun piece other held inside => ?_) below
    -- The bytes of the directory lie in front of the new piece.
    have differ : piece ≠ (fs.inodes parent).size / layout.blockSize := by
      rintro rfl
      obtain ⟨position, below, same⟩ := inside
      have whole := size_of_start start
      have first := Nat.div_mul_le_self position layout.blockSize
      rw [same] at first
      omega
    have had : ready.blocks layout parent piece = some other := by rw [before.blocks, held]
    have apart : other ≠ block := fun same =>
      before.unowned grows.free (.inl ⟨piece, same ▸ had⟩)
    refine ⟨(grows.old differ).trans had, fun a inside => ?_⟩
    rw [grows.kept other apart (before.apart.table piece other had) a inside]
    exact before.kept_of_held held a inside
  others other differ table a inside := by
    rw [grows.table] at table
    rw [grows.kept other differ table a inside, before.kept other table a inside]

/-- The next entry fits in the piece in which it starts. -/
theorem entry_fits (dirents : utils.Dirents layout) (directory : fs.Directory layout parent) :
    nextOffset layout fs parent + (utils.makeStringFromDirent name numUnused).length ≤
      layout.blockSize := by
  -- Both the offset and the size of a block are whole numbers of entries.
  have whole := (Nat.dvd_mod_iff dirents.divides).mpr directory.whole
  rw [dirents.length, nextOffset]
  have below := Nat.mod_lt (fs.inodes parent).size layout.blockSize_pos
  obtain ⟨blocks, size⟩ := dirents.divides
  obtain ⟨entries, offset⟩ := whole
  rw [offset, size] at below ⊢
  have less : entries < blocks := Nat.lt_of_mul_lt_mul_left below
  calc layout.fileNameEntry * entries + layout.fileNameEntry
      = layout.fileNameEntry * (entries + 1) := (Nat.mul_succ _ _).symm
    _ ≤ layout.fileNameEntry * blocks := Nat.mul_le_mul_left _ less

/-- The directory and one more entry are smaller than the largest file. -/
theorem Supplied.fits (dirents : utils.Dirents layout) (directory : fs.Directory layout parent)
    (supplied : Supplied layout parent block fs ready) :
    (fs.inodes parent).size + layout.fileNameEntry < sizeRange := by
  have fits := @entry_fits _ utils [] _ 0 _ dirents directory
  rw [dirents.length, nextOffset] at fits
  -- The piece of the entry is one of those that block numbers can name.
  have below := piece_lt supplied.held
  have whole := Nat.div_add_mod' (fs.inodes parent).size layout.blockSize
  have largest := layout.largest_file
  have bound : ((fs.inodes parent).size / layout.blockSize + 1) * layout.blockSize ≤
      (layout.numDirectBlocks + layout.blockSize / numberSize) * layout.blockSize :=
    Nat.mul_le_mul_right _ below
  rw [Nat.succ_mul] at bound
  rw [Nat.mul_comm] at largest
  simp only [sizeRange]
  omega

/-- The parent with its new entry has the same block numbers. -/
theorem entered_inode {address : Nat} :
    ((entered layout utils clock fs parent name numUnused address).inodes parent).direct =
        (fs.inodes parent).direct ∧
      ((entered layout utils clock fs parent name numUnused address).inodes parent).indirect =
        (fs.inodes parent).indirect := by
  rw [entered, FileSystem.setInode_same]
  exact ⟨rfl, rfl⟩

/-- The blocks of the parent, once the entry is stored. -/
theorem entered_blocks {address : Nat} :
    (entered layout utils clock fs parent name numUnused address).blocks layout parent =
      dataBlock layout fs.dblockCount (fs.inodes parent)
        (fs.data.writeBytes address (utils.makeStringFromDirent name numUnused)) :=
  dataBlock_inode_congr entered_inode.1 entered_inode.2

/-- Storing the entry in the block of the parent is what the creation is to do. -/
theorem Supplied.added (dirents : utils.Dirents layout) (directory : fs.Directory layout parent)
    (left : supplied layout utils fs parent numUnused = ready)
    (supply : Supplied layout parent block fs ready) :
    EntryAdded layout utils fs parent name numUnused
      (entered layout utils clock ready parent name numUnused
        (block * layout.blockSize + nextOffset layout fs parent)) := by
  have fits := @entry_fits _ _ name _ numUnused _ dirents directory
  have room := supply.fits dirents directory
  have wrote := Wrote.chunk supply.apart supply.held fits
  have whole : (fs.inodes parent).size / layout.blockSize * layout.blockSize +
      nextOffset layout fs parent = (fs.inodes parent).size := Nat.div_add_mod' _ _
  rw [whole] at wrote
  have contents : (entered layout utils clock ready parent name numUnused
      (block * layout.blockSize + nextOffset layout fs parent)).contents layout parent =
      (ready.contents layout parent).writeBytes (fs.inodes parent).size
        (utils.makeStringFromDirent name numUnused) := by
    rw [FileSystem.contents, entered_blocks]
    exact wrote.view
  -- Only bytes of the block are written.
  have others : ∀ other, other ≠ block → ready.Keeps (entered layout utils clock ready parent name
      numUnused (block * layout.blockSize + nextOffset layout fs parent)) layout other := by
    intro other differ a inside
    exact BlockMap.writeBytes_of_other_block fits (inside ▸ differ)
  constructor
  · intro position below
    rw [contents, Memory.writeBytes_of_outside (.inl below), supply.contents position below]
  · rw [contents, ← dirents.length name numUnused, Memory.readBytes_writeBytes]
  · refine ⟨block, ?_, fun other differ table a inside => ?_⟩
    · rw [entered_blocks, wrote.blocks]
      exact supply.held
    · rw [entered_inode.2] at table
      rw [others other differ a inside, supply.others other differ table a inside]
  · -- The indirect block is another one.
    intro table found
    rw [entered_inode.2] at found
    rw [left]
    exact others table fun same => supply.apart.table _ _ supply.held (same ▸ found)
  · rw [entered, FileSystem.setInode_same, supply.size]
    exact Nat.mod_eq_of_lt room

/-- An entry that is stored at the start of the data area is in place only where it was before. -/
theorem Supplied.in_place (dirents : utils.Dirents layout) (start : nextOffset layout fs parent = 0)
    (left : supplied layout utils fs parent numUnused = ready)
    (supply : Supplied layout parent block fs ready) (positive : 0 < block)
    (added : EntryAdded layout utils fs parent name numUnused
      (entered layout utils clock ready parent name numUnused 0))
    (directory : fs.Directory layout parent) :
    ready.data.readBytes (block * layout.blockSize) layout.fileNameEntry =
        utils.makeStringFromDirent name numUnused ∧
      ready.data.readBytes 0 layout.fileNameEntry = utils.makeStringFromDirent name numUnused := by
  have fits := @entry_fits _ _ name _ numUnused _ dirents directory
  rw [start, Nat.zero_add] at fits
  have far := Nat.le_mul_of_pos_left layout.blockSize positive
  -- The indirect block is what the library left, and so are the blocks that it names.
  have blocks : (entered layout utils clock ready parent name numUnused 0).blocks layout parent =
      ready.blocks layout parent := by
    rw [entered_blocks]
    funext piece
    apply dataBlock_congr
    intro table found a inside
    have same := added.table table (by rw [entered_inode.2]; exact found) a inside
    rwa [left] at same
  obtain ⟨own, held, others⟩ := added.block
  rw [blocks, supply.held] at held
  obtain rfl := Option.some.inj held
  rw [dirents.length] at fits
  constructor
  · -- The block of the parent is not written, and the entry is there.
    have whole := Nat.div_add_mod' (fs.inodes parent).size layout.blockSize
    have piece := @BlockMap.readBytes_of_piece _ layout.blockSize _ _ 0 layout.fileNameEntry
      (entered layout utils clock ready parent name numUnused 0).data (blocks ▸ supply.held) (by omega)
    rw [nextOffset] at start
    rw [start] at whole
    rw [whole, Nat.add_zero] at piece
    rw [← added.new, FileSystem.contents, ← piece]
    apply Memory.readBytes_congr
    intro offset below
    refine (Memory.writeBytes_of_outside (.inr ?_)).symm
    rw [dirents.length]
    omega
  · -- The first block is the indirect one, or another one that is to stay as it was.
    have first : ready.Keeps (entered layout utils clock ready parent name numUnused 0) layout 0 := by
      intro a inside
      by_cases table : blockOf ready.dblockCount (ready.inodes parent).indirect = some 0
      · have same := added.table 0 (by rw [entered_inode.2]; exact table) a inside
        rwa [left] at same
      · rw [others 0 (Nat.ne_of_lt positive) (by rw [entered_inode.2]; exact table) a inside,
          supply.others 0 (Nat.ne_of_lt positive) table a inside]
    have written := @Memory.readBytes_writeBytes ready.data 0
      (utils.makeStringFromDirent name numUnused)
    rw [dirents.length] at written
    rw [← written]
    apply Memory.readBytes_congr
    intro offset below
    rw [← first (0 + offset) (Nat.div_eq_of_lt (by omega))]
    rfl

/-- The number of the piece in which the next entry starts is the one that is computed. -/
theorem nextPiece_eq (small : layout.numDirectBlocks + layout.blockSize / numberSize < 2 ^ 31)
    (directory : fs.Directory layout parent) :
    nextPiece layout fs parent = ((fs.inodes parent).size / layout.blockSize : Nat) := by
  apply toInt_eq
  refine Nat.lt_of_le_of_lt ?_ small
  -- The piece before it has a block.
  by_contra! beyond
  obtain ⟨block, held⟩ := directory.held beyond
  exact Nat.lt_irrefl _ (piece_lt held)

/-- Setting up another inode leaves the parent as it is. -/
theorem Prepared.setInode {inode : Inode} (differ : parent ≠ numUnused)
    (before : Prepared layout parent fs ready) :
    Prepared layout parent fs (ready.setInode numUnused inode) := by
  have same : (ready.setInode numUnused inode).inodes parent = ready.inodes parent :=
    FileSystem.setInode_other differ
  have blocks : (ready.setInode numUnused inode).blocks layout parent =
      ready.blocks layout parent := by
    rw [FileSystem.blocks, same]
    rfl
  constructor
  · rw [same, before.size]
  · rw [same, before.direct]
  · exact before.area
  · rw [blocks, before.blocks]
  · rw [same]
    exact before.apart
  · intro block owned
    rw [FileSystem.Owns, blocks, same] at owned
    exact before.mapped block owned
  · rw [same]
    exact before.kept
  · rw [same]
    exact before.table
  · rw [same]
    exact before.indirect

/-- A directory that needs no indirect block is prepared as it is. -/
theorem FileSystem.Directory.prepared (directory : fs.Directory layout parent)
    (table : layout.numDirectBlocks ≤ (fs.inodes parent).size / layout.blockSize →
      (fs.inodes parent).indirect ≠ unassignedNode) : Prepared layout parent fs fs where
  size := rfl
  direct := rfl
  area := rfl
  blocks := rfl
  apart := directory.wellFormed.exclusive.apart
  mapped := directory.mapped
  kept _ _ _ _ := rfl
  table needed := directory.table.resolve_left (table needed)
  indirect := directory.indirect

/-- Attaching an indirect block to a directory without one gives it no new piece. -/
theorem attached_prepared (assigns : utils.Assigns layout) (directory : fs.Directory layout parent)
    (unassigned : (fs.inodes parent).indirect = unassignedNode)
    (added : utils.addSingleIndirectBlock fs parent = (number, ready)) (enough : number ≠ -1) :
    Prepared layout parent fs ready := by
  obtain ⟨table, taken, inodes, entries, kept⟩ := assigns.single _ _ _ _ unassigned added enough
  have inode : ready.inodes parent = { fs.inodes parent with indirect := number } := by
    rw [inodes, Function.update_self]
  have named : blockOf ready.dblockCount (ready.inodes parent).indirect = some table := by
    rw [inode, taken.area, taken.number]
    exact blockOf_of_lt taken.inside
  -- None of the entries of the new indirect block names a block.
  have blocks : ready.blocks layout parent = fs.blocks layout parent := by
    funext piece
    rw [FileSystem.blocks, FileSystem.blocks]
    rcases Nat.lt_or_ge piece layout.numDirectBlocks with direct | indirect
    · rw [dataBlock_direct direct, dataBlock_direct direct, inode, taken.area]
    · rw [dataBlock_indirect indirect, dataBlock_indirect indirect, named, unassigned,
        blockOf_unassigned, Option.bind_none, Option.bind_some, ite_self]
      split
      next small => rw [entries _ small, blockOf_unassigned]
      · rfl
  -- The new block is none of those that the directory has.
  have unowned : ∀ {piece}, fs.blocks layout parent piece ≠ some table :=
    fun held => directory.mapped table (.inl ⟨_, held⟩) taken.free
  constructor
  · rw [inode]
  · rw [inode]
  · exact taken.area
  · exact blocks
  · constructor
    · rw [← FileSystem.blocks, blocks]
      exact directory.wellFormed.exclusive.apart.distinct
    · intro piece block held
      rw [← FileSystem.blocks, blocks] at held
      rw [named]
      exact fun same => unowned (held.trans same.symm)
  · rintro block (⟨piece, held⟩ | same)
    · rw [blocks] at held
      rw [taken.others block fun same => unowned (same ▸ held)]
      exact directory.mapped block (.inl ⟨piece, held⟩)
    · rw [named] at same
      rw [← Option.some.inj same]
      exact taken.marked
  · intro block differ
    rw [named] at differ
    exact kept block fun same => differ (congrArg some same.symm)
  · exact fun _ => ⟨table, named⟩
  · intro other entry same small _
    rw [named] at same
    rw [← Option.some.inj same]
    exact entries entry small

/-- The parent, when a place for its entry is looked for. -/
theorem prepared_of_attached
    (small : layout.numDirectBlocks + layout.blockSize / numberSize < 2 ^ 31)
    (assigns : utils.Assigns layout) (directory : fs.Directory layout parent)
    (differ : parent ≠ numUnused) (enough : (attached layout utils fs parent).1 ≠ -1) :
    Prepared layout parent fs (prepared layout utils fs parent numUnused) := by
  apply Prepared.setInode differ
  rw [attached, parentIndirect, nextPiece_eq small directory] at enough ⊢
  split at enough
  next needed =>
    rw [if_pos needed]
    exact attached_prepared assigns directory needed.2 rfl enough
  next unneeded =>
    rw [if_neg unneeded]
    exact directory.prepared fun beyond unassigned => unneeded ⟨by omega, unassigned⟩

/-- The first entry that names no block is the one behind those that do. -/
theorem first_unassigned {unassigned : Nat → Prop} {found next : Nat} (here : unassigned found)
    (first : ∀ earlier, earlier < found → ¬ unassigned earlier)
    (front : ∀ earlier, earlier < next → ¬ unassigned earlier)
    (there : next < found → unassigned next) : found = next := by
  rcases Nat.lt_trichotomy found next with below | same | above
  · exact absurd here (front found below)
  · exact same
  · exact absurd (there above) (first next above)

/-- The direct block that is added is the one for the next entry. -/
theorem grows_direct (assigns : utils.Assigns layout) (directory : fs.Directory layout parent)
    (before : Prepared layout parent fs ready) (start : nextOffset layout fs parent = 0)
    (direct : (fs.inodes parent).size / layout.blockSize < layout.numDirectBlocks)
    (added : utils.addDataBlockToInode ready parent = (number, given)) (enough : number ≠ -1) :
    ∃ block : Nat, number = block ∧
      Grows layout parent ((fs.inodes parent).size / layout.blockSize) block ready given := by
  obtain ⟨piece, block, taken, -, here, first, inodes, kept⟩ :=
    assigns.direct _ _ _ _ added enough
  rw [before.direct] at here first
  -- The directory has direct blocks up to its end and none behind it.
  have next : piece = (fs.inodes parent).size / layout.blockSize := by
    refine first_unassigned here first (fun earlier below unassigned => ?_) fun _ =>
      directory.direct _ direct (Nat.le_of_eq (size_of_start start))
    obtain ⟨block, held⟩ := directory.held below
    rw [FileSystem.blocks, dataBlock_direct (by omega), unassigned, blockOf_unassigned] at held
    cases held
  have named : (given.inodes parent).direct =
      Function.update (ready.inodes parent).direct piece number := by
    rw [inodes, Function.update_self]
  have table : (given.inodes parent).indirect = (ready.inodes parent).indirect := by
    rw [inodes, Function.update_self]
  refine ⟨block, taken.number, ?_, ?_, ?_, taken.free, fun other differ _ => kept other differ⟩
  · rw [inodes, Function.update_self]
  · funext other
    rw [FileSystem.blocks, Function.update_apply, FileSystem.blocks, ← next]
    rcases Nat.lt_or_ge other layout.numDirectBlocks with direct | indirect
    · rw [dataBlock_direct direct, dataBlock_direct direct, named, taken.area,
        Function.update_apply]
      split
      · rw [taken.number]
        exact blockOf_of_lt taken.inside
      · rfl
    · -- The indirect block is not the new one, and it stays as it is.
      rw [if_neg (by omega), dataBlock_indirect indirect, table, taken.area,
        ← dataBlock_indirect indirect]
      refine dataBlock_congr fun other found => kept other fun same => ?_
      exact before.mapped other (.inr found) (same ▸ taken.free)
  · rw [table, taken.area]

/-- The block that is added to the indirect block is the one for the next entry. -/
theorem grows_indirect (assigns : utils.Assigns layout) (directory : fs.Directory layout parent)
    (before : Prepared layout parent fs ready) (start : nextOffset layout fs parent = 0)
    (indirect : layout.numDirectBlocks ≤ (fs.inodes parent).size / layout.blockSize)
    (added : utils.addDataBlockToIndirectBlock ready (ready.inodes parent).indirect =
      (number, given)) (enough : number ≠ -1) :
    ∃ block : Nat, number = block ∧
      Grows layout parent ((fs.inodes parent).size / layout.blockSize) block ready given := by
  obtain ⟨table, named⟩ := before.table indirect
  obtain ⟨entry, block, taken, small, here, first, inodes, entries, kept⟩ :=
    assigns.indirect _ _ _ _ _ named added enough
  -- The indirect block names blocks up to the end of the directory and none behind it.
  have next : entry = (fs.inodes parent).size / layout.blockSize - layout.numDirectBlocks := by
    refine first_unassigned here first (fun earlier below unassigned => ?_) fun less => ?_
    · obtain ⟨block, held⟩ := @FileSystem.Directory.held _ _ (layout.numDirectBlocks + earlier) _
        directory (by omega)
      rw [← before.blocks, FileSystem.blocks, dataBlock_indirect (by omega), named,
        Option.bind_some, Nat.add_sub_cancel_left, unassigned, blockOf_unassigned, ite_self] at held
      cases held
    · refine before.indirect table _ named (Nat.lt_trans less small) ?_
      rw [Nat.add_sub_of_le indirect]
      exact Nat.le_of_eq (size_of_start start)
  have area : blockOf given.dblockCount (given.inodes parent).indirect = some table := by
    rw [inodes, taken.area, named]
  refine ⟨block, taken.number, ?_, ?_, ?_, taken.free, fun other differ apart => ?_⟩
  · rw [inodes]
  · funext other
    rw [FileSystem.blocks, Function.update_apply, FileSystem.blocks]
    rcases Nat.lt_or_ge other layout.numDirectBlocks with direct | indirect
    · rw [if_neg (by omega), dataBlock_direct direct, dataBlock_direct direct, inodes, taken.area]
    · rw [dataBlock_indirect indirect, dataBlock_indirect indirect, area, named, Option.bind_some,
        Option.bind_some, taken.area]
      -- Only the entry of the new piece is another one than before.
      by_cases same : other = (fs.inodes parent).size / layout.blockSize
      · rw [if_pos same, same, ← next, if_pos small, entries entry small, if_pos rfl, taken.number]
        exact blockOf_of_lt taken.inside
      · rw [if_neg same]
        split
        next within => rw [entries _ within, if_neg (by omega)]
        · rfl
  · rw [area, named]
  · rw [named] at apart
    exact kept other differ fun same => apart (congrArg some same.symm)

/-- A creation that succeeds went through all of its stages. -/
theorem createIn_of_created (within : (utils.parentDirectory fs path).1 = some parent)
    (created : minixfsCreateInodeForPath layout utils clock fs path = some (some numUnused, after)) :
    utils.firstUnusedInode fs = some numUnused ∧
      createIn layout utils clock fs parent (utils.parentDirectory fs path).2 numUnused =
        some (some numUnused, after) := by
  -- Every other way through the function returns `NULL`.
  rcases absent : utils.getInode fs path with _ | file
  · rcases free : utils.firstUnusedInode fs with _ | number
    · simp [minixfsCreateInodeForPath, absent, free] at created
    · by_cases valid : utils.validFilename (utils.parentDirectory fs path).2 = true
      · rw [minixfsCreateInodeForPath_eq absent free valid, within, Option.bind_some] at created
        obtain ⟨-, rfl, -⟩ := createIn_done_iff.mp created
        exact ⟨rfl, created⟩
      · simp [minixfsCreateInodeForPath, absent, free, valid] at created
  · simp [minixfsCreateInodeForPath, absent] at created

/-- The parent's block for an entry that starts a piece is the one that the library adds. -/
theorem granted_supplied (small : layout.numDirectBlocks + layout.blockSize / numberSize < 2 ^ 31)
    (assigns : utils.Assigns layout) (directory : fs.Directory layout parent)
    (before : Prepared layout parent fs (prepared layout utils fs parent numUnused))
    (start : nextOffset layout fs parent = 0)
    (enough : (granted layout utils fs parent numUnused).1 ≠ -1) :
    ∃ block : Nat, (granted layout utils fs parent numUnused).1 = block ∧
      Supplied layout parent block fs (granted layout utils fs parent numUnused).2 := by
  rw [granted, grant, nextPiece_eq small directory] at enough ⊢
  split at enough
  next direct =>
    rw [if_pos direct]
    obtain ⟨block, number, grows⟩ :=
      grows_direct assigns directory before start (by omega) rfl enough
    exact ⟨block, number, before.grown directory start grows⟩
  next indirect =>
    rw [if_neg indirect]
    obtain ⟨block, number, grows⟩ :=
      grows_indirect assigns directory before start (by omega) rfl enough
    exact ⟨block, number, before.grown directory start grows⟩

/--
A creation that succeeds adds its entry to the directory, and changes no other block, exactly when
the entry goes to the block of the directory.
-/
theorem entry_added_iff (small : layout.numDirectBlocks + layout.blockSize / numberSize < 2 ^ 31)
    (creates : utils.Creates) (assigns : utils.Assigns layout) (dirents : utils.Dirents layout)
    (within : (utils.parentDirectory fs path).1 = some parent)
    (directory : fs.Directory layout parent)
    (created : minixfsCreateInodeForPath layout utils clock fs path = some (some numUnused, after)) :
    EntryAdded layout utils fs parent (utils.parentDirectory fs path).2 numUnused after ↔
      EntryInPlace layout utils fs parent (utils.parentDirectory fs path).2 numUnused := by
  obtain ⟨free, created⟩ := createIn_of_created within created
  obtain ⟨attach, -, stored⟩ := createIn_done_iff.mp created
  have differ : parent ≠ numUnused := by
    rintro rfl
    have used := creates.parent_used _ _ _ within
    rw [creates.unused _ _ free] at used
    cases used
  have before := prepared_of_attached small assigns directory differ attach
  rcases stored with ⟨inside, -, block, held, rfl⟩ | ⟨start, enough, rfl⟩
  · -- The piece of the entry has a block already.
    rw [nextPiece_eq small directory, Int.toNat_natCast] at held
    have supply := before.supplied directory held
    exact iff_of_true (supply.added dirents directory (if_neg inside)) (.inl inside)
  · obtain ⟨block, number, supply⟩ :=
      granted_supplied small assigns directory before start enough
    have left : supplied layout utils fs parent numUnused =
      (granted layout utils fs parent numUnused).2 := if_pos start
    rw [EntryInPlace, number, Int.toNat_natCast]
    constructor
    · intro added
      rcases Nat.eq_zero_or_pos block with rfl | positive
      · exact .inr (.inl rfl)
      · exact .inr (.inr (supply.in_place dirents start left positive added directory))
    · have right := @Supplied.added _ _ clock (utils.parentDirectory fs path).2 _ _ _ _ _ dirents
        directory left supply
      rw [start, Nat.add_zero] at right
      rintro (inside | first | ⟨there, here⟩)
      · exact absurd start inside
      · obtain rfl : block = 0 := by omega
        rwa [Nat.zero_mul] at right
      · -- Storing the entry changes nothing, here or there.
        rw [← dirents.length (utils.parentDirectory fs path).2 numUnused] at there here
        rw [entered, Memory.writeBytes_of_read there] at right
        rw [entered, Memory.writeBytes_of_read here]
        exact right

theorem volumeUtils_assigns (layout : Layout) : (volumeUtils layout).Assigns layout where
  single fs parent number after _ added enough := absurd (Prod.mk.inj added).1.symm enough
  direct fs parent number after added enough := by
    rcases volumeUtils_direct added with ⟨refused, -⟩ | ⟨block, piece, free, unassigned, rfl, rfl⟩
    · exact absurd refused enough
    · -- Both the block and the piece are the first ones that are not taken.
      obtain ⟨clear, inside, -⟩ := List.find?_range_eq_some.mp free
      obtain ⟨here, small, first⟩ := List.find?_range_eq_some.mp unassigned
      refine ⟨piece, block, ⟨rfl, List.mem_range.mp inside, by simpa using clear, ?_, ?_, rfl⟩,
        List.mem_range.mp small, by simpa using here, fun earlier below => ?_, rfl,
        fun _ _ _ _ => rfl⟩
      · simp [FileSystem.addDirect]
      · exact fun other differ => Function.update_of_ne differ _ _
      · simpa using first earlier below
  indirect fs named number after table _ added enough :=
    absurd (Prod.mk.inj added).1.symm enough

theorem volumeUtils_dirents : (volumeUtils volumeLayout).Dirents volumeLayout where
  length name number := by simp [volumeUtils, volumeLayout]
  divides := by decide

/-- The only block of the root directory is the first one. -/
theorem volume_blocks {size : Nat}
    (held : (volume 3 size).blocks volumeLayout 0 piece = some block) : piece = 0 ∧ block = 0 := by
  -- The other direct entry names no block, and there is no indirect block.
  rw [FileSystem.blocks] at held
  rcases Nat.lt_or_ge piece volumeLayout.numDirectBlocks with direct | indirect
  · rw [dataBlock_direct direct] at held
    cases piece with
    | zero => exact ⟨rfl, (Option.some.inj held).symm⟩
    | succ piece => cases held
  · rw [dataBlock_indirect indirect] at held
    have unassigned : ((volume 3 size).inodes 0).indirect = unassignedNode := rfl
    rw [unassigned, blockOf_unassigned, Option.bind_none, ite_self] at held
    cases held

/-- The root directory is well formed if it has one entry or two. -/
theorem volume_directory {size : Nat} (whole : 4 ∣ size) (positive : 0 < size) (fits : size ≤ 8) :
    (volume 3 size).Directory volumeLayout 0 := by
  have first : (volume 3 size).blocks volumeLayout 0 0 = some 0 := rfl
  have unassigned : ((volume 3 size).inodes 0).indirect = unassignedNode := rfl
  have owned : ∀ block, (volume 3 size).Owns volumeLayout 0 block → block = 0 := by
    rintro block (⟨piece, held⟩ | table)
    · exact (volume_blocks held).2
    · cases table
  constructor
  · refine ⟨⟨⟨fun piece other block one two => ?_, fun piece block _ table => ?_⟩, ?_⟩, ?_⟩
    · rw [(volume_blocks one).1, (volume_blocks two).1]
    · cases table
    · -- No other inode is in use.
      intro other differ used
      cases other with
      | zero => exact absurd rfl differ
      | succ other => cases used
    · -- All entries lie in the first piece.
      intro position below
      have below : position < size := below
      have piece : position / 8 = 0 := Nat.div_eq_of_lt (by omega)
      simp only [volumeLayout, piece]
      rfl
  · intro block own
    have marked : (volume 3 size).dataMap 0 = 1 := rfl
    rw [owned block own, marked]
    decide
  · exact whole
  · intro piece small behind
    have behind : size ≤ piece * 8 := behind
    cases piece with
    | zero => omega
    | succ piece => rfl
  · exact .inl rfl
  · intro table entry found
    rw [unassigned, blockOf_unassigned] at found
    cases found

/-- The second entry of the root directory goes behind the first one. -/
theorem entry_added_iff_volume :
    ∃ after, minixfsCreateInodeForPath volumeLayout (volumeUtils volumeLayout) (fun _ => 0)
        (volume 3 4) [47, 102] = some (some 1, after) ∧
      EntryAdded volumeLayout (volumeUtils volumeLayout) (volume 3 4) 0 [102] 1 after := by
  have directory : (volume 3 4).Directory volumeLayout 0 :=
    volume_directory (by decide) (by decide) (by decide)
  have created : minixfsCreateInodeForPath volumeLayout (volumeUtils volumeLayout) (fun _ => 0)
      (volume 3 4) [47, 102] = some (some 1, _) := rfl
  exact ⟨_, created, (entry_added_iff (by decide) (volumeUtils_creates _) (volumeUtils_assigns _)
    volumeUtils_dirents rfl directory created).mpr (.inl (by decide))⟩

/-- The third entry of the root directory starts a block, and overwrites the first one. -/
theorem first_block_overwritten :
    (volume 3 8).Directory volumeLayout 0 ∧
      ∃ after, minixfsCreateInodeForPath volumeLayout (volumeUtils volumeLayout) (fun _ => 0)
          (volume 3 8) [47, 102] = some (some 1, after) ∧
        ¬ EntryAdded volumeLayout (volumeUtils volumeLayout) (volume 3 8) 0 [102] 1 after := by
  refine ⟨volume_directory (by decide) (by decide) (by decide), _, rfl, fun added => ?_⟩
  -- The first byte of the directory was zero, and is the first one of the name now.
  have first := added.old 0 (by decide)
  revert first
  decide

end SystemProgramming.Minixfs
