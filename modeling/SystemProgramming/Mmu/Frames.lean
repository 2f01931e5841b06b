import SystemProgramming.Mmu.Unit

/-! The frames of address spaces as a tree below each page directory, and what its pages hold. -/

namespace SystemProgramming.Mmu

open Foundations

/-- Where a frame stands below a page directory. -/
inductive Path where
  | directory
  | table (i : Fin numEntries)
  | page (i j : Fin numEntries)
  deriving DecidableEq, Repr

namespace Path

/-- The place that holds the entry of a place. -/
def parent : Path → Option Path
  | directory => none
  | table _ => some directory
  | page i _ => some (table i)

/-- The index of the entry of a place. -/
def index : Path → Nat
  | directory => 0
  | table i => i
  | page _ j => j

theorem index_lt (path : Path) : path.index < numEntries := by
  cases path with
  | directory => decide
  | table i => exact i.isLt
  | page _ j => exact j.isLt

/-- A place is known by its parent and its index there. -/
theorem eq_of_parent_index {path other above : Path} (mine : path.parent = some above)
    (its : other.parent = some above) (same : path.index = other.index) : path = other := by
  -- Tables differ in their index, and pages of one table do.
  cases path <;> cases other <;> simp_all [parent, index, Fin.ext_iff] <;> grind

/-- No place stands above itself. -/
theorem parent_ne {path above : Path} (parent : path.parent = some above) : path ≠ above := by
  intro same
  subst same
  cases path <;> cases parent

/-- The layout of the entry of a place. -/
def format (platform : Platform) : Path → EntryFormat
  | page _ _ => platform.tableEntry
  | _ => platform.directoryEntry

end Path

/-- A place below the page directory in a frame. -/
abbrev Place := Nat × Path

/-- Which frame stands at each place. -/
abbrev Tree := Place → Option Nat

/-- The address of the entry of a place, when the frame that holds it is there. -/
def Tree.slot (tree : Tree) (place : Place) : Option Nat :=
  place.2.parent.bind fun above =>
    (tree (place.1, above)).map fun frame => frame * pageSize + entrySize * place.2.index

/-- Only page frames are requested for an entry, which is their own. -/
def Tree.tag (tree : Tree) : Place → Option Nat
  | (root, .page i j) => tree.slot (root, .page i j)
  | _ => none

/-- The kernel's frames are exactly those of a tree, and the entries in memory describe the tree. -/
structure Represents (platform : Platform) (kernel : Kernel) (tree : Tree) : Prop where
  entries : ∀ place slot, tree.slot place = some slot →
    (place.2.format platform).target kernel.mem slot = tree place
  rooted : ∀ place, place.2 ≠ .directory → tree.slot place = none → tree place = none
  roots : ∀ root frame, tree (root, .directory) = some frame → frame = root
  owned : ∀ place frame, tree place = some frame → kernel.frames frame = some (tree.tag place)
  used : ∀ frame tag, kernel.frames frame = some tag → ∃ place, tree place = some frame
  injective : ∀ place other frame, tree place = some frame → tree other = some frame → place = other
  bounded : ∀ place frame, tree place = some frame → frame < 2 ^ 20
  swapped : ∀ pte page, kernel.swap pte = some page →
    page.length = pageSize ∧ ∃ root i j, tree.slot (root, .page i j) = some pte

/-- The byte of a page that is not in a frame: from its swap file, or zero. -/
def savedByte (kernel : Kernel) (tree : Tree) (place : Place) (offset : Nat) : UInt8 :=
  ((tree.slot place).bind kernel.swap).elim 0 fun page => page.getD offset 0

/-- The byte at an offset of a page, wherever the page is. -/
def byteAt (kernel : Kernel) (tree : Tree) (place : Place) (offset : Nat) : UInt8 :=
  (tree place).elim (savedByte kernel tree place offset) fun frame =>
    kernel.mem (frame * pageSize + offset)

variable {platform : Platform} {kernel kernel' : Kernel} {tree tree' : Tree} {place other : Place}
  {slot slot' frame frame' root : Nat} {i j : Fin numEntries}

theorem slot_table : tree.slot (root, .table i) =
    (tree (root, .directory)).map fun frame => frame * pageSize + entrySize * i := rfl

theorem slot_page : tree.slot (root, .page i j) =
    (tree (root, .table i)).map fun frame => frame * pageSize + entrySize * j := rfl

/-- The entry of a place lies inside the frame of the place above it, which is not a page. -/
theorem Tree.slot_inside (at_slot : tree.slot place = some slot) :
    ∃ above frame, place.2.parent = some above ∧ tree (place.1, above) = some frame ∧
      slot = frame * pageSize + entrySize * place.2.index := by
  -- The address exists only when the place above has a frame.
  obtain ⟨above, parent, rest⟩ := Option.bind_eq_some_iff.mp at_slot
  obtain ⟨frame, present, rfl⟩ := Option.map_eq_some_iff.mp rest
  exact ⟨above, frame, parent, present, rfl⟩

/-- A place with an entry above it is not a page. -/
theorem Path.parent_not_page {path above : Path} (parent : path.parent = some above) :
    above ≠ .page i j := by
  intro same
  subst same
  cases path <;> cases parent

namespace Represents

/-- The entries of a directory point to its tables. -/
theorem target_table (rep : Represents platform kernel tree)
    (present : tree (root, .directory) = some frame) (i : Fin numEntries) :
    platform.directoryEntry.target kernel.mem (frame * pageSize + entrySize * i) =
      tree (root, .table i) := by
  have at_slot : tree.slot (root, .table i) = some (frame * pageSize + entrySize * i) := by
    rw [slot_table, present]
    rfl
  exact rep.entries _ _ at_slot

/-- The entries of a table point to its pages. -/
theorem target_page (rep : Represents platform kernel tree)
    (present : tree (root, .table i) = some frame) (j : Fin numEntries) :
    platform.tableEntry.target kernel.mem (frame * pageSize + entrySize * j) =
      tree (root, .page i j) := by
  have at_slot : tree.slot (root, .page i j) = some (frame * pageSize + entrySize * j) := by
    rw [slot_page, present]
    rfl
  exact rep.entries _ _ at_slot

/-- The entries of two places do not overlap. -/
theorem slots_apart (rep : Represents platform kernel tree) (mine : tree.slot place = some slot)
    (its : tree.slot other = some slot') (different : place ≠ other) :
    slot + entrySize ≤ slot' ∨ slot' + entrySize ≤ slot := by
  obtain ⟨above, frame, parent, present, rfl⟩ := Tree.slot_inside mine
  obtain ⟨above', frame', parent', present', rfl⟩ := Tree.slot_inside its
  have low := place.2.index_lt
  have low' := other.2.index_lt
  -- Either the entries lie in different frames, or they are different entries of one frame.
  by_cases same : frame = frame'
  · subst same
    -- One frame stands at one place, so both entries have the same place above.
    have one := rep.injective _ _ _ present present'
    obtain ⟨roots, aboves⟩ := Prod.mk.inj one
    subst aboves
    have indices : place.2.index ≠ other.2.index := fun equal =>
      different (Prod.ext roots (Path.eq_of_parent_index parent parent' equal))
    simp only [entrySize]
    omega
  · -- Entries stay inside their frame, and different frames do not overlap.
    simp only [entrySize, pageSize, numEntries] at *
    omega

/-- The entry of a place lies outside every page frame. -/
theorem slot_outside_page (rep : Represents platform kernel tree)
    (at_slot : tree.slot place = some slot) (page : tree (root, .page i j) = some frame) :
    slot + entrySize ≤ frame * pageSize ∨ (frame + 1) * pageSize ≤ slot := by
  obtain ⟨above, frame', parent, present, rfl⟩ := Tree.slot_inside at_slot
  have low := place.2.index_lt
  -- The frame that holds an entry is a directory or a table, never a page.
  have different : frame' ≠ frame := by
    intro same
    subst same
    have one := rep.injective _ _ _ present page
    exact Path.parent_not_page parent (congrArg Prod.snd one)
  simp only [entrySize, pageSize, numEntries] at *
  omega

/-- An unused frame stands at no place. -/
theorem unused (rep : Represents platform kernel tree) (free : kernel.frames frame = none) :
    tree place ≠ some frame := by
  intro present
  rw [rep.owned _ _ present] at free
  cases free

/-- A frame that was requested for an entry is a page, and the entry is its own. -/
theorem page_of_tag (rep : Represents platform kernel tree)
    (tagged : kernel.frames frame = some (some slot)) :
    ∃ root i j, tree (root, .page i j) = some frame ∧ tree.slot (root, .page i j) = some slot := by
  obtain ⟨⟨root, path⟩, present⟩ := rep.used _ _ tagged
  have tag := (rep.owned _ _ present).symm.trans tagged
  -- Directories and tables were requested for no entry, so they have no such tag.
  cases path with
  | page i j => exact ⟨root, i, j, present, Option.some.inj tag⟩
  | table i => exact absurd (Option.some.inj tag) (by simp [Tree.tag])
  | directory => exact absurd (Option.some.inj tag) (by simp [Tree.tag])

/-- Writing one entry leaves the entries of all other places as they were. -/
theorem target_kept (rep : Represents platform kernel tree) {format : EntryFormat} {entry : Entry}
    (mine : tree.slot place = some slot) (its : tree.slot other = some slot')
    (different : place ≠ other) :
    (other.2.format platform).target (format.write kernel.mem slot entry) slot' =
      (other.2.format platform).target kernel.mem slot' := by
  have apart := rep.slots_apart mine its different
  -- The four bytes of the other entry lie outside the four that are written.
  exact EntryFormat.target_congr fun a lower upper =>
    EntryFormat.write_of_outside (by simp only [entrySize] at *; omega)

/-- Writing an entry changes no byte of a page frame. -/
theorem page_kept (rep : Represents platform kernel tree) {format : EntryFormat} {entry : Entry}
    {offset : Nat} (mine : tree.slot place = some slot)
    (page : tree (root, .page i j) = some frame) (inside : offset < pageSize) :
    format.write kernel.mem slot entry (frame * pageSize + offset) =
      kernel.mem (frame * pageSize + offset) := by
  have apart := rep.slot_outside_page mine page
  exact EntryFormat.write_of_outside (by simp only [entrySize, pageSize] at *; omega)

end Represents

/-- No entry stands in a page, so the entries do not move when a page comes or goes. -/
@[simp] theorem slot_update_page {value : Option Nat} :
    Tree.slot (Function.update tree (root, .page i j) value) place = tree.slot place := by
  obtain ⟨above, path⟩ := place
  -- Entries stand in directories and tables, and both are places other than a page.
  cases path <;> simp [Tree.slot, Path.parent, Function.update]

/-- Pages that come or go do not change whom the other frames were requested for. -/
@[simp] theorem tag_update_page {value : Option Nat} :
    Tree.tag (Function.update tree (root, .page i j) value) place = tree.tag place := by
  obtain ⟨above, path⟩ := place
  cases path with
  | page => exact slot_update_page
  | table => rfl
  | directory => rfl

/--
What a step of the kernel may do to the address spaces: directories and tables stay, and every
page keeps its bytes, in a frame or in its swap file.
-/
structure Carries (kernel : Kernel) (tree : Tree) (kernel' : Kernel) (tree' : Tree) : Prop where
  directories : ∀ root, tree' (root, .directory) = tree (root, .directory)
  tables : ∀ root i frame, tree (root, .table i) = some frame → tree' (root, .table i) = some frame
  bytes : ∀ root i j offset, offset < pageSize →
    byteAt kernel' tree' (root, .page i j) offset = byteAt kernel tree (root, .page i j) offset

namespace Carries

theorem refl : Carries kernel tree kernel tree :=
  ⟨fun _ => rfl, fun _ _ _ present => present, fun _ _ _ _ _ => rfl⟩

theorem trans {kernel'' : Kernel} {tree'' : Tree} (first : Carries kernel tree kernel' tree')
    (second : Carries kernel' tree' kernel'' tree'') : Carries kernel tree kernel'' tree'' where
  directories root := (second.directories root).trans (first.directories root)
  tables root i frame present := second.tables root i frame (first.tables root i frame present)
  bytes root i j offset inside :=
    (second.bytes root i j offset inside).trans (first.bytes root i j offset inside)

end Carries

end SystemProgramming.Mmu
