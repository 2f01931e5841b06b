import SystemProgramming.Minixfs.Creation

/-! What a write that fails leaves of the file that it was to create. -/

namespace SystemProgramming.Minixfs

open Foundations

/-- Paths lead to the same inodes, the same inodes are in use, and sizes and times are the same. -/
structure Undisturbed (utils : Utils) (before after : FileSystem) : Prop where
  tree : ∀ path, utils.getInode after path = utils.getInode before path
  used : ∀ file, (after.inodes file).used = (before.inodes file).used
  size : ∀ file, (after.inodes file).size = (before.inodes file).size
  atim : ∀ file, (after.inodes file).atim = (before.inodes file).atim
  mtim : ∀ file, (after.inodes file).mtim = (before.inodes file).mtim

/--
What `minixfs_min_blockcount` promises where it fails: it does so for a path that names no file, and
then it changes neither directories nor sizes nor times. It never marks an inode.
-/
structure Utils.Spares (utils : Utils) : Prop where
  absent : ∀ fs path count, utils.getInode fs path = none →
    (utils.minixfsMinBlockcount fs path count).1 ≠ 0
  failed : ∀ fs path count, (utils.minixfsMinBlockcount fs path count).1 ≠ 0 →
    Undisturbed utils fs (utils.minixfsMinBlockcount fs path count).2
  marks : ∀ fs path count file,
    ((utils.minixfsMinBlockcount fs path count).2.inodes file).used = (fs.inodes file).used

/--
The path names no file, and `minixfs_create_inode_for_path` goes on to the point at which it sets up
the inode: one is free, the name is valid, the parent is there, and so is its indirect block.
-/
def SetsUp (layout : Layout) (utils : Utils) (fs : FileSystem) (path : Path) : Prop :=
  utils.getInode fs path = none ∧ utils.firstUnusedInode fs ≠ none ∧
    utils.validFilename (utils.parentDirectory fs path).2 = true ∧
    ∃ parent, (utils.parentDirectory fs path).1 = some parent ∧
      (attached layout utils fs parent).1 ≠ -1

variable {layout : Layout} {utils : Utils} {clock : Nat → Nat} {path name : Path}
  {buf : List UInt8} {off newOff parent numUnused : Nat} {fs opened after : FileSystem}
  {newInode : Option Nat}

/-- What nothing was done to is undisturbed. -/
theorem Undisturbed.refl (utils : Utils) (fs : FileSystem) : Undisturbed utils fs fs :=
  ⟨fun _ => rfl, fun _ => rfl, fun _ => rfl, fun _ => rfl, fun _ => rfl⟩

/-- A write that fails ends behind the call of `minixfs_min_blockcount`. -/
theorem minixfsWrite_failed
    (done : minixfsWrite layout utils clock fs path buf off = some ⟨-1, after, newOff⟩) :
    ∃ newInode opened, openForWrite layout utils clock fs path = some (newInode, opened) ∧
      newOff = off ∧
      after = (utils.minixfsMinBlockcount opened path (lastBlock layout off buf.length + 1)).2 ∧
      (newInode ≠ none →
        (utils.minixfsMinBlockcount opened path (lastBlock layout off buf.length + 1)).1 ≠ 0) := by
  simp only [minixfsWrite] at done
  split at done
  · cases done
  next newInode opened named =>
    refine ⟨newInode, opened, named, ?_⟩
    split at done
    · cases done
    · split at done
      · cases done
        exact ⟨rfl, rfl, fun missing => absurd rfl missing⟩
      · split at done
        next failed =>
          cases done
          exact ⟨rfl, rfl, fun _ => failed⟩
        · split at done
          · cases done
          next looped =>
            -- A write that does not fail returns a count.
            have impossible : (buf.length : Int) = -1 :=
              congrArg WriteResult.returned (Option.some.inj done)
            omega

/-- Once the new inode is set up, it stays marked, whatever comes of the creation. -/
theorem createIn_marks (creates : utils.Creates) (differ : numUnused ≠ parent)
    (enough : (attached layout utils fs parent).1 ≠ -1)
    (created : createIn layout utils clock fs parent name numUnused = some (newInode, opened)) :
    (opened.inodes numUnused).used = true := by
  rw [createIn_eq, if_neg enough, Option.map_eq_some_iff] at created
  obtain ⟨⟨place, ready⟩, placed, finish⟩ := created
  -- Finding a place for the entry changes at most the parent.
  have kept := direntBlock_inodes creates differ placed
  have marked : (ready.inodes numUnused).used = true := by
    rw [kept, prepared, FileSystem.setInode_same, creates.init]
  cases place with
  | none =>
    obtain ⟨-, rfl⟩ := Prod.mk.inj finish
    exact marked
  | some newDb =>
    obtain ⟨-, rfl⟩ := Prod.mk.inj finish
    rw [entered]
    exact (congrArg Inode.used (FileSystem.setInode_other differ)).trans marked

/-- Where an inode is set up, one that was free before is marked after the call. -/
theorem marked_of_setsUp (creates : utils.Creates) (sets : SetsUp layout utils fs path)
    (named : openForWrite layout utils clock fs path = some (newInode, opened)) :
    ∃ file, (fs.inodes file).used = false ∧ (opened.inodes file).used = true := by
  obtain ⟨absent, free, valid, parent, within, enough⟩ := sets
  obtain ⟨numUnused, unused⟩ := Option.ne_none_iff_exists'.mp free
  simp only [openForWrite, absent] at named
  rw [minixfsCreateInodeForPath_eq absent unused valid, within, Option.bind_some] at named
  have clear := creates.unused _ _ unused
  refine ⟨numUnused, clear, createIn_marks creates ?_ enough named⟩
  -- The parent is in use, so it is another inode.
  rintro rfl
  rw [creates.parent_used _ _ _ within] at clear
  cases clear

/-- Where no inode is set up, opening changes nothing. -/
theorem opened_of_not_setsUp (refuses : utils.Refuses) (none_set : ¬ SetsUp layout utils fs path)
    (named : openForWrite layout utils clock fs path = some (newInode, opened)) :
    opened = fs ∧ (newInode = none → utils.getInode fs path = none) := by
  cases absent : utils.getInode fs path with
  | some file =>
    simp only [openForWrite, absent, Option.some.injEq, Prod.mk.injEq] at named
    obtain ⟨rfl, rfl⟩ := named
    exact ⟨rfl, fun missing => by cases missing⟩
  | none =>
    refine ⟨?_, fun _ => rfl⟩
    simp only [openForWrite, absent] at named
    cases free : utils.firstUnusedInode fs with
    | none =>
      simp only [minixfsCreateInodeForPath, absent, free, Option.some.injEq, Prod.mk.injEq] at named
      exact named.2.symm
    | some numUnused =>
      by_cases valid : utils.validFilename (utils.parentDirectory fs path).2 = true
      · rw [minixfsCreateInodeForPath_eq absent free valid] at named
        obtain ⟨parent, within, created⟩ := Option.bind_eq_some_iff.mp named
        -- The only stage that is left to fail is the one before the inode is set up.
        have refused : (attached layout utils fs parent).1 = -1 := by
          by_contra enough
          exact none_set ⟨absent, by rw [free]; simp, valid, parent, within, enough⟩
        rw [createIn_eq, if_pos refused, Option.some.injEq, Prod.mk.injEq] at created
        rw [← created.2]
        exact attached_refused refuses refused
      · simp only [minixfsCreateInodeForPath, absent, free, if_pos (Bool.not_eq_true _ ▸ valid),
          Option.some.injEq, Prod.mk.injEq] at named
        exact named.2.symm

/--
A write that returns -1 leaves the offset, the paths, the sizes, the times, and the set of files as
they were, exactly if no inode is set up for a new file.
-/
theorem failed_write_iff (creates : utils.Creates) (refuses : utils.Refuses) (spares : utils.Spares)
    (done : minixfsWrite layout utils clock fs path buf off = some ⟨-1, after, newOff⟩) :
    (newOff = off ∧ Undisturbed utils fs after) ↔ ¬ SetsUp layout utils fs path := by
  obtain ⟨newInode, opened, named, rfl, rfl, failed⟩ := minixfsWrite_failed done
  constructor
  · rintro ⟨-, undisturbed⟩ sets
    obtain ⟨file, clear, marked⟩ := marked_of_setsUp creates sets named
    -- Reserving blocks does not take the mark away.
    have same := undisturbed.used file
    rw [spares.marks, marked, clear] at same
    cases same
  · intro none_set
    obtain ⟨rfl, missing⟩ := opened_of_not_setsUp refuses none_set named
    refine ⟨rfl, spares.failed _ _ _ ?_⟩
    by_cases none : newInode = none
    · exact spares.absent _ _ _ (missing none)
    · exact failed none

/-- The root directory has an entry with the name in the path. -/
def listed (layout : Layout) (fs : FileSystem) (path : Path) : Bool :=
  (List.range ((fs.inodes 0).size / layout.fileNameEntry)).any fun entry =>
    (fs.contents layout 0).readBytes (entry * layout.fileNameEntry) layout.fileNameEntry =
      (volumeUtils layout).makeStringFromDirent (path.drop 1) 1

/-- The root directory, or the one file in it. -/
def shelfInode (layout : Layout) (fs : FileSystem) (path : Path) : Option Nat :=
  if path = [47] ∧ (fs.inodes 0).used = true then some 0
  else if (fs.inodes 1).used = true ∧ listed layout fs path = true then some 1
  else none

/-- Reserving blocks for files that have one block at most. -/
def reserveFirst (layout : Layout) (fs : FileSystem) (found : Option Nat) (count : Int) :
    Int × FileSystem :=
  match found with
  | none => (-1, fs)
  | some file =>
    if count ≤ 0 ∨ count = 1 ∧ (fs.blocks layout file 0).isSome then (0, fs)
    else if count = 1 then
      match firstUnusedData fs with
      | some block => (0, fs.addDirect file 0 block)
      | none => (-1, fs)
    else (-1, fs)

/-- What this comes to: it fails and changes nothing, or one block is added at most. -/
theorem reserveFirst_cases (layout : Layout) (fs : FileSystem) (found : Option Nat) (count : Int) :
    reserveFirst layout fs found count = (-1, fs) ∨ ∃ file, found = some file ∧
      (reserveFirst layout fs found count = (0, fs) ∨ ∃ block, firstUnusedData fs = some block ∧
        reserveFirst layout fs found count = (0, fs.addDirect file 0 block)) := by
  -- The cases are those of the definition.
  unfold reserveFirst
  split
  · exact .inl rfl
  next file =>
    split
    · exact .inr ⟨file, rfl, .inl rfl⟩
    · split
      · split
        next block free => exact .inr ⟨file, rfl, .inr ⟨block, free, rfl⟩⟩
        · exact .inl rfl
      · exact .inl rfl

/-- A library for the same volumes, whose one file can be found, and has at most one block. -/
def shelfUtils (layout : Layout) : Utils :=
  { volumeUtils layout with
    getInode := shelfInode layout
    minixfsMinBlockcount := fun fs path => reserveFirst layout fs (shelfInode layout fs path) }

theorem shelfUtils_creates (layout : Layout) : (shelfUtils layout).Creates where
  found_used fs path file found := by
    simp only [shelfUtils, shelfInode] at found
    split at found
    next known =>
      cases found
      exact known.2
    · split at found
      next known =>
        cases found
        exact known.1
      · cases found
  unused := (volumeUtils_creates layout).unused
  parent_used := (volumeUtils_creates layout).parent_used
  init := (volumeUtils_creates layout).init
  single := (volumeUtils_creates layout).single
  direct := (volumeUtils_creates layout).direct
  indirect := (volumeUtils_creates layout).indirect

theorem shelfUtils_refuses (layout : Layout) : (shelfUtils layout).Refuses where
  single := (volumeUtils_refuses layout).single
  direct := (volumeUtils_refuses layout).direct
  indirect := (volumeUtils_refuses layout).indirect

theorem shelfUtils_spares (layout : Layout) : (shelfUtils layout).Spares where
  absent fs path count missing := by
    rcases reserveFirst_cases layout fs (shelfInode layout fs path) count with
      refused | ⟨file, found, -⟩
    · simp only [shelfUtils, refused]
      decide
    · cases found.symm.trans missing
  failed fs path count code := by
    rcases reserveFirst_cases layout fs (shelfInode layout fs path) count with
      refused | ⟨_, _, done | ⟨_, _, done⟩⟩
    · simp only [shelfUtils, refused]
      exact .refl _ fs
    · exact absurd (congrArg Prod.fst done) code
    · exact absurd (congrArg Prod.fst done) code
  marks fs path count file := by
    rcases reserveFirst_cases layout fs (shelfInode layout fs path) count with
      refused | ⟨named, _, done | ⟨block, _, done⟩⟩
    · simp only [shelfUtils, refused]
    · simp only [shelfUtils, done]
    · -- The block is added to an inode that keeps its mark.
      simp only [shelfUtils, done, FileSystem.addDirect]
      by_cases same : file = named
      · simp [same]
      · exact congrArg Inode.used (FileSystem.setInode_other same)

/-- A volume with the file `/f`, which has no block, and with no block left. -/
def fullShelf : FileSystem where
  dblockCount := 1
  dataMap _ := 1
  inodes
    | 0 => ⟨true, 4, fun piece => if piece = 0 then 0 else unassignedNode, unassignedNode, 0, 0⟩
    | 1 => ⟨true, 0, fun _ => unassignedNode, unassignedNode, 0, 0⟩
    | _ => ⟨false, 0, fun _ => unassignedNode, unassignedNode, 0, 0⟩
  data
    | 0 => 102
    | 3 => 1
    | _ => 0

/-- A byte cannot be written to `/f`, and nothing has changed after the attempt. -/
theorem failed_write_iff_shelf :
    ∃ after, minixfsWrite volumeLayout (shelfUtils volumeLayout) (fun _ => 0) fullShelf [47, 102]
        [7] 0 = some ⟨-1, after, 0⟩ ∧
      Undisturbed (shelfUtils volumeLayout) fullShelf after := by
  have done : minixfsWrite volumeLayout (shelfUtils volumeLayout) (fun _ => 0) fullShelf [47, 102]
      [7] 0 = some ⟨-1, fullShelf, 0⟩ := rfl
  have alone := (failed_write_iff (shelfUtils_creates _) (shelfUtils_refuses _)
    (shelfUtils_spares _) done).mpr ?_
  · exact ⟨fullShelf, done, alone.2⟩
  · -- The path names the file.
    rintro ⟨absent, -⟩
    have found : (shelfUtils volumeLayout).getInode fullShelf [47, 102] = some 1 := by
      decide +kernel
    cases found.symm.trans absent

/-- A byte for `/f`, which is not there, cannot be written either, but an empty file stays behind. -/
theorem failed_write_creates :
    ∃ after, minixfsWrite volumeLayout (shelfUtils volumeLayout) (fun _ => 0) (volume 1 4) [47, 102]
        [7] 0 = some ⟨-1, after, 0⟩ ∧
      ¬ Undisturbed (shelfUtils volumeLayout) (volume 1 4) after ∧
      (shelfUtils volumeLayout).getInode (volume 1 4) [47, 102] = none ∧
      (shelfUtils volumeLayout).getInode after [47, 102] = some 1 := by
  refine ⟨_, rfl, fun undisturbed => ?_, by decide +kernel, by decide +kernel⟩
  -- The root directory has grown by an entry.
  have same := undisturbed.size 0
  exact absurd same (by decide +kernel)

end SystemProgramming.Minixfs
