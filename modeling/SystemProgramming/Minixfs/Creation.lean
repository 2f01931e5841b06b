import SystemProgramming.Minixfs.Size

/-! The stages of creating a file, and what a creation that fails leaves behind. -/

namespace SystemProgramming.Minixfs

open Foundations

/-- A helper that has no block to add changes nothing. -/
structure Utils.Refuses (utils : Utils) : Prop where
  single : ∀ fs parent after, utils.addSingleIndirectBlock fs parent = (-1, after) → after = fs
  direct : ∀ fs parent after, utils.addDataBlockToInode fs parent = (-1, after) → after = fs
  indirect : ∀ fs table after,
    utils.addDataBlockToIndirectBlock fs table = (-1, after) → after = fs

section Stages

variable (layout : Layout) (utils : Utils)

/-- `idb`, the piece of the parent in which its next entry starts. -/
def nextPiece (fs : FileSystem) (parent : Nat) : Int :=
  toInt ((fs.inodes parent).size / layout.blockSize)

/-- `offset_db`, where the next entry of the parent starts in its piece. -/
def nextOffset (fs : FileSystem) (parent : Nat) : Nat :=
  (fs.inodes parent).size % layout.blockSize

/-- The block that the library adds to the parent for an entry that starts a piece. -/
def grant (fs : FileSystem) (parent : Nat) (idb : Int) : Int × FileSystem :=
  if idb < layout.numDirectBlocks then utils.addDataBlockToInode fs parent
  else utils.addDataBlockToIndirectBlock fs (fs.inodes parent).indirect

/-- The indirect block that is attached to the parent before anything else is changed. -/
def attached (fs : FileSystem) (parent : Nat) : Int × FileSystem :=
  parentIndirect layout utils fs parent (nextPiece layout fs parent)

/-- The file system in which a place for the entry is looked for: the new inode is set up. -/
def prepared (fs : FileSystem) (parent numUnused : Nat) : FileSystem :=
  let fs := (attached layout utils fs parent).2
  fs.setInode numUnused (utils.initInode (fs.inodes parent) (fs.inodes numUnused))

/-- The block for an entry that starts a piece, as the function asks for it. -/
def granted (fs : FileSystem) (parent numUnused : Nat) : Int × FileSystem :=
  grant layout utils (prepared layout utils fs parent numUnused) parent
    (nextPiece layout fs parent)

/-- The entry is stored at an address, and the parent grows by it. -/
def entered (clock : Nat → Nat) (fs : FileSystem) (parent : Nat) (name : Path)
    (numUnused address : Nat) : FileSystem :=
  { fs.setInode parent
      { fs.inodes parent with
        size := ((fs.inodes parent).size + layout.fileNameEntry) % sizeRange
        mtim := clock 0
        atim := clock 1 } with
    data := fs.data.writeBytes address (utils.makeStringFromDirent name numUnused) }

/-- What the function does when it has looked for a place: it gives up, or stores the entry. -/
def finished (clock : Nat → Nat) (fs : FileSystem) (parent : Nat) (name : Path)
    (numUnused : Nat) : Option Nat × FileSystem → Option Nat × FileSystem
  | (none, refused) => (none, refused)
  | (some newDb, ready) =>
    (some numUnused, entered layout utils clock ready parent name numUnused
      (newDb + nextOffset layout fs parent))

/-- A creation that fails leaves the file system as it was, and never follows a missing parent. -/
def FailsWithoutTrace (clock : Nat → Nat) (fs : FileSystem) (path : Path) : Prop :=
  (∀ after, minixfsCreateInodeForPath layout utils clock fs path = some (none, after) →
    after = fs) ∧
  -- The function stops without a result where it follows `NULL`.
  ¬ ((utils.parentDirectory fs path).1 = none ∧
    minixfsCreateInodeForPath layout utils clock fs path = none)

/--
Once the path, the inodes, and the name are looked at, the parent is there, and nothing fails
behind the point at which the new inode is set up.
-/
def NothingToUndo (fs : FileSystem) (path : Path) : Prop :=
  ∀ numUnused, utils.getInode fs path = none → utils.firstUnusedInode fs = some numUnused →
    utils.validFilename (utils.parentDirectory fs path).2 = true →
    ∃ parent, (utils.parentDirectory fs path).1 = some parent ∧
      ((attached layout utils fs parent).1 ≠ -1 → nextOffset layout fs parent = 0 →
        (granted layout utils fs parent numUnused).1 ≠ -1)

end Stages

variable {layout : Layout} {utils : Utils} {clock : Nat → Nat} {path name : Path}
  {parent numUnused : Nat} {idb : Int} {fs after : FileSystem}

@[simp] theorem finished_refused {refused : FileSystem} :
    finished layout utils clock fs parent name numUnused (none, refused) = (none, refused) :=
  rfl

@[simp] theorem finished_placed {newDb : Nat} {ready : FileSystem} :
    finished layout utils clock fs parent name numUnused (some newDb, ready) =
      (some numUnused, entered layout utils clock ready parent name numUnused
        (newDb + nextOffset layout fs parent)) :=
  rfl

/-- An entry that does not start a piece goes to the block that the parent has for the piece. -/
theorem direntBlock_inside {offsetDb : Nat} (inside : offsetDb ≠ 0) :
    direntBlock layout utils fs parent idb offsetDb =
      if 0 ≤ idb then
        (fs.blocks layout parent idb.toNat).map fun block => (some (block * layout.blockSize), fs)
      else none := by
  simp only [direntBlock, if_pos inside, FileSystem.blocks]
  by_cases direct : idb < layout.numDirectBlocks
  · -- A direct block, whose index may be negative.
    rw [if_pos direct]
    by_cases lower : 0 ≤ idb
    · rw [if_pos lower, if_pos lower, dataBlock_direct (by omega)]
      cases blockOf fs.dblockCount ((fs.inodes parent).direct idb.toNat) with
      | none => rfl
      | some block => rfl
    · rw [if_neg lower, if_neg lower]
  · -- The number of direct blocks is not negative, and so is the index of an indirect one.
    rw [if_neg direct, if_pos (by omega)]
    cases dataBlock layout fs.dblockCount (fs.inodes parent) fs.data idb.toNat with
    | none => rfl
    | some block => rfl

/-- An entry that starts a piece goes to the start of the data area, if a block can be added. -/
theorem direntBlock_fresh :
    direntBlock layout utils fs parent idb 0 =
      if (grant layout utils fs parent idb).1 = -1 then
        some (none, (grant layout utils fs parent idb).2)
      else some (some 0, (grant layout utils fs parent idb).2) := by
  -- Both kinds of blocks are asked for in the same way.
  simp only [direntBlock, grant, ne_eq, not_true, if_false]
  split <;> rfl

/-- The stages of a creation for which the parent is known. -/
theorem createIn_eq : createIn layout utils clock fs parent name numUnused =
    if (attached layout utils fs parent).1 = -1 then
      some (none, (attached layout utils fs parent).2)
    else
      (direntBlock layout utils (prepared layout utils fs parent numUnused) parent
        (nextPiece layout fs parent) (nextOffset layout fs parent)).map
          (finished layout utils clock fs parent name numUnused) := by
  by_cases failed : (attached layout utils fs parent).1 = -1
  · exact (if_pos failed).trans (if_pos failed).symm
  · -- Where a place is found, the rest of the function is the same on both sides.
    refine (if_neg failed).trans (Eq.trans ?_ (if_neg failed).symm)
    simp only [prepared, attached, nextPiece, nextOffset]
    split
    next found => rw [found, Option.map_none]
    next found =>
      rw [found]
      rfl
    next found =>
      rw [found]
      rfl

/-- A creation in a known parent fails where the library has no block to add. -/
theorem createIn_failed_iff :
    createIn layout utils clock fs parent name numUnused = some (none, after) ↔
      ((attached layout utils fs parent).1 = -1 ∧ after = (attached layout utils fs parent).2) ∨
      ((attached layout utils fs parent).1 ≠ -1 ∧ nextOffset layout fs parent = 0 ∧
        (granted layout utils fs parent numUnused).1 = -1 ∧
        after = (granted layout utils fs parent numUnused).2) := by
  rw [createIn_eq]
  by_cases failed : (attached layout utils fs parent).1 = -1
  · simp [failed, eq_comm]
  · rw [if_neg failed]
    by_cases start : nextOffset layout fs parent = 0
    · -- Only an entry that starts a piece asks for a block.
      rw [start, direntBlock_fresh, ← granted]
      by_cases refused : (granted layout utils fs parent numUnused).1 = -1
      · simp [failed, refused, eq_comm]
      · simp [failed, refused]
    · rw [direntBlock_inside start]
      split <;> simp [failed, start]

/-- A creation in a known parent that succeeds has stored the entry. -/
theorem createIn_done_iff {file : Nat} :
    createIn layout utils clock fs parent name numUnused = some (some file, after) ↔
      (attached layout utils fs parent).1 ≠ -1 ∧ file = numUnused ∧
      ((nextOffset layout fs parent ≠ 0 ∧ 0 ≤ nextPiece layout fs parent ∧
          ∃ block, (prepared layout utils fs parent numUnused).blocks layout parent
              (nextPiece layout fs parent).toNat = some block ∧
            after = entered layout utils clock (prepared layout utils fs parent numUnused) parent
              name numUnused (block * layout.blockSize + nextOffset layout fs parent)) ∨
        (nextOffset layout fs parent = 0 ∧ (granted layout utils fs parent numUnused).1 ≠ -1 ∧
          after = entered layout utils clock (granted layout utils fs parent numUnused).2 parent
            name numUnused 0)) := by
  rw [createIn_eq]
  by_cases failed : (attached layout utils fs parent).1 = -1
  · simp [failed]
  · rw [if_neg failed]
    by_cases start : nextOffset layout fs parent = 0
    · -- The entry that starts a piece is stored at the start of the data area.
      rw [start, direntBlock_fresh, ← granted]
      by_cases refused : (granted layout utils fs parent numUnused).1 = -1
      · simp [refused]
      · simp [failed, refused, start, eq_comm]
    · rw [direntBlock_inside start]
      by_cases lower : 0 ≤ nextPiece layout fs parent
      · cases held : (prepared layout utils fs parent numUnused).blocks layout parent
            (nextPiece layout fs parent).toNat with
        | none => simp [start]
        | some block => simp [lower, failed, start, eq_comm]
      · simp [lower, start]

/-- Where the path is free, an inode is left, and the name is valid, the parent decides. -/
theorem minixfsCreateInodeForPath_eq (absent : utils.getInode fs path = none)
    (free : utils.firstUnusedInode fs = some numUnused)
    (valid : utils.validFilename (utils.parentDirectory fs path).2 = true) :
    minixfsCreateInodeForPath layout utils clock fs path =
      (utils.parentDirectory fs path).1.bind fun parent =>
        createIn layout utils clock fs parent (utils.parentDirectory fs path).2 numUnused := by
  simp only [minixfsCreateInodeForPath, absent, free, valid, Bool.true_eq_false, if_false]
  cases (utils.parentDirectory fs path).1 with
  | none => rfl
  | some parent => rfl

/-- Without a block for it, no indirect block is attached. -/
theorem attached_refused (refuses : utils.Refuses)
    (failed : (attached layout utils fs parent).1 = -1) :
    (attached layout utils fs parent).2 = fs := by
  -- Only the call of the library returns -1.
  rw [attached, parentIndirect] at failed ⊢
  split at failed
  next needed =>
    rw [if_pos needed]
    exact refuses.single _ _ _ (Prod.ext failed rfl)
  · cases failed

/-- Without a block for the entry, the file system stays as it was prepared. -/
theorem granted_refused (refuses : utils.Refuses)
    (failed : (granted layout utils fs parent numUnused).1 = -1) :
    (granted layout utils fs parent numUnused).2 = prepared layout utils fs parent numUnused := by
  -- Both calls of the library change nothing if they return -1.
  rw [granted, grant] at failed ⊢
  split at failed
  next direct =>
    rw [if_pos direct]
    exact refuses.direct _ _ _ (Prod.ext failed rfl)
  next indirect =>
    rw [if_neg indirect]
    exact refuses.indirect _ _ _ (Prod.ext failed rfl)

/-- Setting up the new inode is a change of the file system. -/
theorem prepared_ne (creates : utils.Creates)
    (free : utils.firstUnusedInode fs = some numUnused) :
    prepared layout utils fs parent numUnused ≠ fs := by
  -- The inode is marked as used, and it was not before.
  intro same
  have marked : ((prepared layout utils fs parent numUnused).inodes numUnused).used = true := by
    simp only [prepared, FileSystem.setInode_same]
    rw [creates.init]
  rw [same, creates.unused _ _ free] at marked
  cases marked

/--
A creation that fails leaves no trace exactly when there is nothing to undo: the parent is there,
and no block is missing once the new inode is set up.
-/
theorem failed_creation_iff (creates : utils.Creates) (refuses : utils.Refuses) :
    FailsWithoutTrace layout utils clock fs path ↔ NothingToUndo layout utils fs path := by
  constructor
  · rintro ⟨untouched, followed⟩ numUnused absent free valid
    have reached := @minixfsCreateInodeForPath_eq layout _ clock _ _ _ absent free valid
    cases within : (utils.parentDirectory fs path).1 with
    | none =>
      rw [within, Option.bind_none] at reached
      exact absurd ⟨within, reached⟩ followed
    | some parent =>
      -- Without a block for its entry, the new inode would stay behind.
      refine ⟨parent, rfl, fun enough start refused => ?_⟩
      rw [within, Option.bind_some] at reached
      have same := untouched _ (reached.trans
        (createIn_failed_iff.mpr (.inr ⟨enough, start, refused, rfl⟩)))
      rw [granted_refused refuses refused] at same
      exact prepared_ne creates free same
  · intro nothing
    -- The function returns early, or the parent is there and the other failure is excluded.
    rcases absent : utils.getInode fs path with _ | file
    · rcases free : utils.firstUnusedInode fs with _ | numUnused
      · simp [FailsWithoutTrace, minixfsCreateInodeForPath, absent, free, eq_comm]
      · by_cases valid : utils.validFilename (utils.parentDirectory fs path).2 = true
        · obtain ⟨parent, within, goesOn⟩ := nothing numUnused absent free valid
          rw [FailsWithoutTrace, minixfsCreateInodeForPath_eq absent free valid, within,
            Option.bind_some]
          refine ⟨fun after failed => ?_, fun stopped => by cases stopped.1⟩
          rcases createIn_failed_iff.mp failed with ⟨refused, rfl⟩ | ⟨enough, start, refused, -⟩
          · exact attached_refused refuses refused
          · exact absurd refused (goesOn enough start)
        · simp [FailsWithoutTrace, minixfsCreateInodeForPath, absent, free, valid, eq_comm]
    · simp [FailsWithoutTrace, minixfsCreateInodeForPath, absent, eq_comm]

/-- Blocks of eight bytes, of which a directory has two directly, and entries of four bytes. -/
def volumeLayout : Layout where
  blockSize := 8
  numDirectBlocks := 2
  dataNumber := 3
  fileNameEntry := 4
  blockSize_pos := by decide
  largest_file := by decide

/-- The first data block that is not marked in the map. -/
def firstUnusedData (fs : FileSystem) : Option Nat :=
  (List.range fs.dblockCount).find? fun block => fs.dataMap block = 0

/-- The first direct entry of an inode that names no block. -/
def firstUnassigned (layout : Layout) (inode : Inode) : Option Nat :=
  (List.range layout.numDirectBlocks).find? fun piece => inode.direct piece = unassignedNode

/-- The data block is marked and named by a direct entry of the inode. -/
def FileSystem.addDirect (fs : FileSystem) (parent piece block : Nat) : FileSystem :=
  { fs.setInode parent
      { fs.inodes parent with
        direct := Function.update (fs.inodes parent).direct piece block } with
    dataMap := Function.update fs.dataMap block 1 }

/-- A library for volumes with a root directory, room for one file, and direct blocks only. -/
def volumeUtils (layout : Layout) : Utils where
  getInode fs path := if path = [47] ∧ (fs.inodes 0).used = true then some 0 else none
  minixfsMinBlockcount fs _ _ := (-1, fs)
  isVirtualPath _ := none
  firstUnusedInode fs := if (fs.inodes 1).used = true then none else some 1
  parentDirectory fs path :=
    (if 47 ∉ path.drop 1 ∧ (fs.inodes 0).used = true then some 0 else none,
      (path.reverse.takeWhile (· ≠ 47)).reverse)
  validFilename name := !name.isEmpty
  initInode _ _ := ⟨true, 0, fun _ => unassignedNode, unassignedNode, 0, 0⟩
  addSingleIndirectBlock fs _ := (-1, fs)
  addDataBlockToInode fs parent :=
    match firstUnusedData fs, firstUnassigned layout (fs.inodes parent) with
    | some block, some piece => (block, fs.addDirect parent piece block)
    | _, _ => (-1, fs)
  addDataBlockToIndirectBlock fs _ := (-1, fs)
  makeStringFromDirent name number := (name ++ [0, 0, 0]).take 3 ++ [UInt8.ofNat number]

/-- What adding a direct block comes to: there is one to add, or nothing is done. -/
theorem volumeUtils_direct {number : Int}
    (added : (volumeUtils layout).addDataBlockToInode fs parent = (number, after)) :
    (number = -1 ∧ after = fs) ∨ ∃ block piece, firstUnusedData fs = some block ∧
      firstUnassigned layout (fs.inodes parent) = some piece ∧ number = block ∧
      after = fs.addDirect parent piece block := by
  simp only [volumeUtils] at added
  split at added
  next block piece free unassigned =>
    obtain ⟨rfl, rfl⟩ := Prod.mk.inj added
    exact .inr ⟨block, piece, free, unassigned, rfl, rfl⟩
  · obtain ⟨rfl, rfl⟩ := Prod.mk.inj added
    exact .inl ⟨rfl, rfl⟩

theorem volumeUtils_creates (layout : Layout) : (volumeUtils layout).Creates where
  found_used fs path file found := by
    simp only [volumeUtils] at found
    split at found
    next known =>
      cases found
      exact known.2
    · cases found
  unused fs file found := by
    simp only [volumeUtils] at found
    split at found
    · cases found
    next free =>
      cases found
      exact Bool.eq_false_iff.mpr free
  parent_used fs path parent found := by
    simp only [volumeUtils] at found
    split at found
    next known =>
      cases found
      exact known.2
    · cases found
  init _ _ := rfl
  single _ _ _ _ := rfl
  direct fs parent other differ := by
    rcases added : (volumeUtils layout).addDataBlockToInode fs parent with ⟨number, after⟩
    rcases volumeUtils_direct added with ⟨-, rfl⟩ | ⟨block, piece, -, -, -, rfl⟩
    · rfl
    · exact FileSystem.setInode_other differ
  indirect _ _ _ := rfl

theorem volumeUtils_refuses (layout : Layout) : (volumeUtils layout).Refuses where
  single _ _ _ added := (Prod.mk.inj added).2.symm
  direct fs parent after added := by
    -- The number of a block is not -1.
    rcases volumeUtils_direct added with ⟨-, same⟩ | ⟨block, piece, -, -, number, -⟩
    · exact same
    · omega
  indirect _ _ _ added := (Prod.mk.inj added).2.symm

/-- A volume whose root directory has a number of bytes, all of them in its first block. -/
def volume (dblockCount size : Nat) : FileSystem where
  dblockCount := dblockCount
  dataMap block := if block = 0 then 1 else 0
  inodes
    | 0 => ⟨true, size, fun piece => if piece = 0 then 0 else unassignedNode, unassignedNode, 0, 0⟩
    | _ => ⟨false, 0, fun _ => unassignedNode, unassignedNode, 0, 0⟩
  data _ := 0

/-- With a block left for its entry, the file `/f` can be created. -/
theorem failed_creation_iff_volume :
    FailsWithoutTrace volumeLayout (volumeUtils volumeLayout) (fun _ => 0) (volume 3 8)
      [47, 102] := by
  refine (failed_creation_iff (volumeUtils_creates _) (volumeUtils_refuses _)).mpr ?_
  intro numUnused _ free _
  cases free
  exact ⟨0, rfl, fun _ _ => by decide⟩

/--
Without a block for the entry of `/f`, its inode stays marked; and for `/a/f`, the missing
directory `/a` is followed.
-/
theorem creation_leaves_trace :
    ¬ FailsWithoutTrace volumeLayout (volumeUtils volumeLayout) (fun _ => 0) (volume 1 8)
        [47, 102] ∧
      ¬ FailsWithoutTrace volumeLayout (volumeUtils volumeLayout) (fun _ => 0) (volume 3 8)
        [47, 97, 47, 102] := by
  constructor
  · rintro ⟨untouched, -⟩
    have same := untouched _ rfl
    -- The inode that was not in use before is in use after the call.
    have marked := congrArg (fun fs => (fs.inodes 1).used) same
    cases marked
  · rintro ⟨-, followed⟩
    exact followed ⟨rfl, rfl⟩

end SystemProgramming.Minixfs
