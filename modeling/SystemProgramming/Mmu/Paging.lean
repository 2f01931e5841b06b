import SystemProgramming.Mmu.Frames

/-! What the kernel and the unit do to one frame: save it, hand it out, map it, mark it, fill it. -/

namespace SystemProgramming.Mmu

open Foundations

variable {platform : Platform} {kernel kernel' : Kernel} {tree tree' : Tree} {place other : Place}
  {slot slot' frame frame' root offset : Nat} {i j : Fin numEntries}

/-- A frame is evicted only when it was requested for an entry. -/
theorem evict_eq (evicted : kernel.evict platform.tableEntry frame = some kernel') :
    ∃ pte, kernel.frames frame = some (some pte) ∧
      kernel' = kernel.swapOut platform.tableEntry frame pte := by
  rw [Kernel.evict] at evicted
  split at evicted
  · rename_i pte tagged
    exact ⟨pte, tagged, (Option.some.inj evicted).symm⟩
  · cases evicted

/-- What stands where another place lost its frame stood there before, and it is not that place. -/
theorem present_of_update_none (present : Function.update tree place none other = some frame) :
    other ≠ place ∧ tree other = some frame := by
  rw [Function.update_apply] at present
  split at present
  · cases present
  · rename_i different
    exact ⟨different, present⟩

/-- What stands where a place got a frame is that frame at that place, or it stood there before. -/
theorem present_of_update_some
    (present : Function.update tree place (some frame) other = some frame') :
    other = place ∧ frame' = frame ∨ other ≠ place ∧ tree other = some frame' := by
  rw [Function.update_apply] at present
  split at present
  · rename_i same
    exact .inl ⟨same, (Option.some.inj present).symm⟩
  · rename_i different
    exact .inr ⟨different, present⟩

namespace Represents

/-- After an eviction the page is out of its frame, and everything else stands. -/
theorem evicted (rep : Represents platform kernel tree)
    (page : tree (root, .page i j) = some frame)
    (at_slot : tree.slot (root, .page i j) = some slot) :
    Represents platform (kernel.swapOut platform.tableEntry frame slot)
      (Function.update tree (root, .page i j) none) where
  entries place slot' its := by
    rw [slot_update_page] at its
    -- Only the entry of the evicted page was written.
    by_cases same : place = (root, .page i j)
    · subst same
      obtain rfl := Option.some.inj (at_slot.symm.trans its)
      rw [Function.update_self]
      exact EntryFormat.target_write_same (platform.tableEntry.baseAddr_lt _)
    · rw [Function.update_of_ne same, ← rep.entries _ _ its]
      exact rep.target_kept at_slot its (Ne.symm same)
  rooted place below missing := by
    -- Nothing new joins, so what has no entry has no frame.
    rw [slot_update_page] at missing
    rw [Function.update_apply]
    split
    · rfl
    · exact rep.rooted place below missing
  roots root' frame' present := rep.roots _ _ (present_of_update_none present).2
  owned place frame' present := by
    obtain ⟨different, present⟩ := present_of_update_none present
    rw [tag_update_page]
    -- The evicted frame stood only at the evicted page, which is gone from the tree.
    have other : frame' ≠ frame := by
      intro same
      subst same
      exact different (rep.injective _ _ _ present page)
    exact (Function.update_of_ne other _ _).trans (rep.owned _ _ present)
  used frame' tag used := by
    simp only [Kernel.swapOut] at used
    -- A frame that is still used is not the evicted one, so it was used before.
    have other : frame' ≠ frame := by
      intro same
      subst same
      simp at used
    rw [Function.update_of_ne other] at used
    obtain ⟨place, present⟩ := rep.used _ _ used
    refine ⟨place, ?_⟩
    rw [Function.update_of_ne, present]
    intro same
    subst same
    exact other (Option.some.inj (present.symm.trans page))
  injective place other frame' one two :=
    rep.injective _ _ _ (present_of_update_none one).2 (present_of_update_none two).2
  bounded place frame' present := rep.bounded _ _ (present_of_update_none present).2
  swapped pte bytes saved := by
    simp only [slot_update_page]
    simp only [Kernel.swapOut] at saved
    rw [Function.update_apply] at saved
    split at saved
    · -- The new swap file has a whole page and belongs to the evicted page.
      rename_i same
      subst same
      rw [← Option.some.inj saved]
      exact ⟨Memory.length_readBytes, _, _, _, at_slot⟩
    · exact rep.swapped _ _ saved

/-- The saved byte of a page without a frame is the one at its place in the swap file. -/
theorem savedByte_of_slot (at_slot : tree.slot place = some slot) :
    savedByte kernel tree place offset = (kernel.swap slot).elim 0 fun page => page.getD offset 0 := by
  rw [savedByte, at_slot]
  rfl

/-- An eviction moves the bytes of one page into its swap file. -/
theorem evicted_carries (rep : Represents platform kernel tree)
    (page : tree (root, .page i j) = some frame)
    (at_slot : tree.slot (root, .page i j) = some slot) :
    Carries kernel tree (kernel.swapOut platform.tableEntry frame slot)
      (Function.update tree (root, .page i j) none) where
  directories root' := Function.update_of_ne (by simp) _ _
  tables root' i' frame' present := by
    rw [Function.update_of_ne (by simp), present]
  bytes root' i' j' offset inside := by
    by_cases same : (root', Path.page i' j') = (root, .page i j)
    · -- The evicted page: its byte was in the frame, and is now in the swap file.
      rw [same, byteAt, byteAt, Function.update_self, page]
      simp only [Option.elim_none, Option.elim_some]
      rw [savedByte_of_slot (slot_update_page.trans at_slot)]
      simp only [Kernel.swapOut, Function.update_self, Option.elim_some]
      exact Memory.readBytes_getD inside
    · rw [byteAt, byteAt, Function.update_of_ne same]
      cases present : tree (root', .page i' j') with
      -- Another page in a frame: the entry that was written lies outside every page.
      | some frame' => exact rep.page_kept at_slot present inside
      | none =>
        -- The swap file that was written belongs to another entry.
        simp only [Option.elim_none, savedByte, slot_update_page]
        cases its : tree.slot (root', .page i' j') with
        | none => rfl
        | some slot' =>
          have apart := rep.slots_apart at_slot its (Ne.symm same)
          have different : slot' ≠ slot := by simp only [entrySize] at apart; omega
          simp only [Option.bind_some, Kernel.swapOut, Function.update_of_ne different]

end Represents

/-- A new frame holds no entry of a place that does not stand right below it. -/
theorem slot_update_of_not_parent {value : Option Nat}
    (apart : ∀ above, other.2.parent = some above → (other.1, above) ≠ place) :
    Tree.slot (Function.update tree place value) other = tree.slot other := by
  -- The entry of a place depends on the frame of the place above it only.
  rw [Tree.slot, Tree.slot]
  cases parent : other.2.parent with
  | none => rfl
  | some above => simp only [Option.bind_some, Function.update_of_ne (apart above parent)]

/-- The entries of a new frame. -/
theorem slot_update_child {above : Path} (parent : other.2.parent = some above) :
    Tree.slot (Function.update tree (other.1, above) (some frame)) other =
      some (frame * pageSize + entrySize * other.2.index) := by
  simp [Tree.slot, parent]

theorem slot_child {above : Path} (parent : other.2.parent = some above) :
    tree.slot other =
      (tree (other.1, above)).map fun frame => frame * pageSize + entrySize * other.2.index := by
  simp [Tree.slot, parent]

namespace Represents

/-- The entry of a place lies outside every unused frame. -/
theorem slot_outside_unused (rep : Represents platform kernel tree)
    (at_slot : tree.slot place = some slot) (free : kernel.frames frame = none) :
    slot + entrySize ≤ frame * pageSize ∨ (frame + 1) * pageSize ≤ slot := by
  obtain ⟨above, frame', _, present, rfl⟩ := Tree.slot_inside at_slot
  have low := place.2.index_lt
  have different : frame' ≠ frame := by
    intro same
    subst same
    exact rep.unused free present
  simp only [entrySize, pageSize, numEntries] at *
  omega

/-- A frame that is handed out and mapped holds zeros. -/
theorem mapped_zeros (rep : Represents platform kernel tree) {format : EntryFormat}
    {request : Option Nat} (at_slot : tree.slot place = some slot)
    (free : kernel.frames frame = none) {a : Nat} (lower : frame * pageSize ≤ a)
    (upper : a < (frame + 1) * pageSize) :
    (mapEntry format (kernel.handOut frame request) slot (frame * pageSize)).mem a = 0 := by
  -- The frame was cleared, and the entry that is written afterwards lies outside it.
  have outside := rep.slot_outside_unused at_slot free
  simp only [mapEntry, Kernel.handOut]
  rw [EntryFormat.write_of_outside (by simp only [entrySize, pageSize] at *; omega)]
  exact Memory.fill_of_inside lower (by simp only [pageSize] at *; omega)

/-- Mapping a frame changes memory in that frame and in the entry only. -/
theorem mapped_other {format : EntryFormat} {request : Option Nat} {a : Nat}
    (outside : a < frame * pageSize ∨ (frame + 1) * pageSize ≤ a)
    (apart : a < slot ∨ slot + entrySize ≤ a) :
    (mapEntry format (kernel.handOut frame request) slot (frame * pageSize)).mem a =
      kernel.mem a := by
  simp only [mapEntry, Kernel.handOut]
  rw [EntryFormat.write_of_outside apart]
  exact Memory.fill_of_outside (by simp only [pageSize] at *; omega)

theorem mapped_base (frame : Nat) (entry : Entry) :
    (entry.mapped (frame * pageSize)).baseAddr = frame := by
  simp [Entry.mapped, Nat.shiftRight_eq_div_pow, pageSize]

/-- The entries of every place after a frame was mapped at one of them. -/
theorem mapped_entries (rep : Represents platform kernel tree)
    (at_slot : tree.slot place = some slot) (absent : tree place = none)
    (free : kernel.frames frame = none) (small : frame < 2 ^ 20) {request : Option Nat}
    (its : Tree.slot (Function.update tree place (some frame)) other = some slot') :
    (other.2.format platform).target
      (mapEntry (place.2.format platform) (kernel.handOut frame request) slot
        (frame * pageSize)).mem slot' = Function.update tree place (some frame) other := by
  by_cases below : ∃ above, other.2.parent = some above ∧ (other.1, above) = place
  · -- The entries of the new frame are zero, and nothing stands below it yet.
    obtain ⟨above, parent, rfl⟩ := below
    rw [slot_update_child parent] at its
    obtain rfl := Option.some.inj its
    have low := other.2.index_lt
    rw [EntryFormat.target_of_zeros fun a lower upper => rep.mapped_zeros at_slot free
      (Nat.le_trans (Nat.le_add_right _ _) lower)
      (by simp only [entrySize, pageSize, numEntries] at low upper ⊢; omega)]
    have missing : tree.slot other = none := by rw [slot_child parent, absent]; rfl
    -- The new place is not below itself.
    have different : other ≠ (other.1, above) := by
      intro same
      rw [← same] at absent
      exact Path.parent_ne parent (congrArg Prod.snd same)
    rw [Function.update_of_ne different]
    refine (rep.rooted other ?_ missing).symm
    intro root
    rw [root] at parent
    cases parent
  · have apart : ∀ above, other.2.parent = some above → (other.1, above) ≠ place :=
      fun above parent same => below ⟨above, parent, same⟩
    rw [slot_update_of_not_parent apart] at its
    by_cases same : other = place
    · subst same
      obtain rfl := Option.some.inj (at_slot.symm.trans its)
      rw [Function.update_self]
      simp only [mapEntry]
      -- The entry that was written points to the new frame.
      rw [EntryFormat.target_write_same (by rw [mapped_base]; exact small), mapped_base]
      rfl
    · -- An old entry is neither the one that was written nor inside the new frame.
      rw [Function.update_of_ne same, ← rep.entries _ _ its]
      have outside := rep.slot_outside_unused its free
      have between := rep.slots_apart at_slot its (Ne.symm same)
      exact EntryFormat.target_congr fun a lower upper => mapped_other
        (by simp only [entrySize, pageSize] at *; omega) (by simp only [entrySize] at *; omega)

/-- A place with an entry is not a page directory. -/
theorem not_directory (at_slot : tree.slot place = some slot) : place.2 ≠ .directory := by
  intro root
  rw [Tree.slot, root] at at_slot
  cases at_slot

/-- A new frame does not change whom the old frames were requested for. -/
theorem tag_update (rep : Represents platform kernel tree) (absent : tree place = none)
    (present : tree other = some frame') :
    Tree.tag (Function.update tree place (some frame)) other = tree.tag other := by
  obtain ⟨root, path⟩ := other
  cases path with
  | directory => rfl
  | table => rfl
  | page i j =>
    -- A page below the new place would have had no entry, hence no frame, before.
    refine slot_update_of_not_parent fun above parent same => ?_
    have missing : tree.slot (root, .page i j) = none := by rw [slot_child parent, same, absent]; rfl
    rw [rep.rooted _ (by simp) missing] at present
    cases present

/-- The frame of a new place was requested for the place itself. -/
theorem tag_update_self : Tree.tag (Function.update tree place (some frame)) place = tree.tag place := by
  obtain ⟨root, path⟩ := place
  cases path with
  | directory => rfl
  | table => rfl
  | page i j => exact slot_update_page

/-- The entry of a place stays where it is when the place gets its frame. -/
theorem slot_update_self {value : Option Nat} :
    Tree.slot (Function.update tree place value) place = tree.slot place :=
  slot_update_of_not_parent fun _ parent same =>
    Path.parent_ne parent (congrArg Prod.snd same).symm

/-- An unused frame joins the tree at a free place, once the entries say so. -/
theorem joined (rep : Represents platform kernel tree) (absent : tree place = none)
    (free : kernel.frames frame = none) (small : frame < 2 ^ 20)
    (below : place.2 ≠ .directory → tree.slot place ≠ none)
    (root : place.2 = .directory → place.1 = frame)
    (frames : kernel'.frames = Function.update kernel.frames frame (some (tree.tag place)))
    (swaps : kernel'.swap = kernel.swap)
    (entries : ∀ other slot', Tree.slot (Function.update tree place (some frame)) other = some slot' →
      (other.2.format platform).target kernel'.mem slot' =
        Function.update tree place (some frame) other) :
    Represents platform kernel' (Function.update tree place (some frame)) where
  entries := entries
  rooted other inner missing := by
    -- The new place has an entry, or is a directory, so it is not in question here.
    have different : other ≠ place := by
      intro same
      subst same
      exact below inner (slot_update_self ▸ missing)
    rw [Function.update_of_ne different]
    -- What stands below the new place has an entry now.
    by_cases child : ∃ above, other.2.parent = some above ∧ (other.1, above) = place
    · obtain ⟨above, parent, rfl⟩ := child
      rw [slot_update_child parent] at missing
      cases missing
    · rw [slot_update_of_not_parent fun above parent same => child ⟨above, parent, same⟩] at missing
      exact rep.rooted _ inner missing
  roots root' frame' present := by
    rcases present_of_update_some present with ⟨rfl, rfl⟩ | ⟨_, old⟩
    · exact (root rfl).symm
    · exact rep.roots _ _ old
  owned other frame' present := by
    rw [frames]
    rcases present_of_update_some present with ⟨rfl, rfl⟩ | ⟨_, old⟩
    · -- The new frame has the tag that it was requested with.
      rw [Function.update_self, tag_update_self]
    · -- An old frame is not the new one, since that was unused.
      have different : frame' ≠ frame := by
        intro same
        subst same
        exact rep.unused free old
      rw [Function.update_of_ne different, rep.tag_update absent old, rep.owned _ _ old]
  used frame' tag used := by
    rw [frames] at used
    by_cases same : frame' = frame
    · -- The new frame stands at the new place.
      exact ⟨place, by rw [same, Function.update_self]⟩
    · rw [Function.update_of_ne same] at used
      obtain ⟨other, present⟩ := rep.used _ _ used
      refine ⟨other, ?_⟩
      rw [Function.update_of_ne, present]
      intro same
      subst same
      rw [absent] at present
      cases present
  injective one two frame' first second := by
    -- The new frame was unused, so only the new place has it.
    rcases present_of_update_some first with ⟨rfl, rfl⟩ | ⟨_, old⟩
    · rcases present_of_update_some second with ⟨rfl, _⟩ | ⟨_, old'⟩
      · rfl
      · exact absurd old' (rep.unused free)
    · rcases present_of_update_some second with ⟨rfl, rfl⟩ | ⟨_, old'⟩
      · exact absurd old (rep.unused free)
      · exact rep.injective _ _ _ old old'
  bounded other frame' present := by
    rcases present_of_update_some present with ⟨_, rfl⟩ | ⟨_, old⟩
    · exact small
    · exact rep.bounded _ _ old
  swapped pte bytes saved := by
    rw [swaps] at saved
    obtain ⟨length, root, i, j, its⟩ := rep.swapped pte bytes saved
    refine ⟨length, root, i, j, ?_⟩
    -- No swap file belongs to an entry in the new frame, which held none before.
    rw [slot_update_of_not_parent, its]
    intro above parent same
    rw [slot_child parent, same, absent] at its
    cases its

/-- An unused frame that is handed out and mapped for a place joins the tree there. -/
theorem mapped (rep : Represents platform kernel tree) (at_slot : tree.slot place = some slot)
    (absent : tree place = none) (free : kernel.frames frame = none) (small : frame < 2 ^ 20) :
    Represents platform
      (mapEntry (place.2.format platform) (kernel.handOut frame (tree.tag place)) slot
        (frame * pageSize))
      (Function.update tree place (some frame)) :=
  rep.joined absent free small (fun _ => by rw [at_slot]; simp)
    (fun root => absurd root (not_directory at_slot)) rfl rfl
    fun _ _ its => rep.mapped_entries at_slot absent free small its

/-- No page directory stands in an unused frame. -/
theorem root_absent (rep : Represents platform kernel tree) (free : kernel.frames frame = none) :
    tree (frame, .directory) = none := by
  cases present : tree (frame, .directory) with
  | none => rfl
  -- A directory stands in its own frame, and this one is unused.
  | some root => exact absurd (rep.roots _ _ present ▸ present) (rep.unused free)

/-- A frame that is handed out for a page directory joins the tree as a new root. -/
theorem planted (rep : Represents platform kernel tree) (free : kernel.frames frame = none)
    (small : frame < 2 ^ 20) :
    Represents platform (kernel.handOut frame none)
      (Function.update tree (frame, .directory) (some frame)) := by
  have absent := rep.root_absent free
  refine rep.joined absent free small (fun below => absurd rfl below) (fun _ => rfl) rfl rfl ?_
  intro place slot' its
  obtain ⟨root, path⟩ := place
  -- A directory has no entry, so the place in question is another one.
  have different : (root, path) ≠ (frame, .directory) := by
    intro same
    rw [(Prod.mk.inj same).2] at its
    cases its
  rw [Function.update_of_ne different]
  by_cases below : ∃ above, path.parent = some above ∧ (root, above) = (frame, .directory)
  · -- The entries of the new directory are zero.
    obtain ⟨above, parent, same⟩ := below
    obtain ⟨rfl, rfl⟩ := Prod.mk.inj same
    have child : (root, path).2.parent = some .directory := parent
    rw [slot_update_child child] at its
    obtain rfl := Option.some.inj its
    have low := path.index_lt
    have missing : tree.slot (root, path) = none := by rw [slot_child child, absent]; rfl
    have inner : path ≠ .directory := by
      intro same
      subst same
      cases parent
    rw [rep.rooted _ inner missing]
    refine EntryFormat.target_of_zeros fun a lower upper => Memory.fill_of_inside
      (Nat.le_trans (Nat.le_add_right _ _) lower) ?_
    simp only [entrySize, pageSize, numEntries] at low upper ⊢
    omega
  · rw [slot_update_of_not_parent fun above parent same => below ⟨above, parent, same⟩] at its
    -- An old entry lies outside the frame that was cleared.
    have outside := rep.slot_outside_unused its free
    rw [← rep.entries _ _ its]
    exact EntryFormat.target_congr fun a lower upper => Memory.fill_of_outside
      (by simp only [entrySize, pageSize] at outside lower upper ⊢; omega)

/-- There is no swap file at an address in an unused frame. -/
theorem swap_of_unused (rep : Represents platform kernel tree) (free : kernel.frames frame = none)
    (lower : frame * pageSize ≤ slot) (upper : slot < (frame + 1) * pageSize) :
    kernel.swap slot = none := by
  cases saved : kernel.swap slot with
  | none => rfl
  | some page =>
    -- A swap file belongs to the entry of a page, which lies in a used frame.
    obtain ⟨_, root, i, j, its⟩ := rep.swapped _ _ saved
    have outside := rep.slot_outside_unused its free
    simp only [entrySize] at outside
    omega

/-- When a frame joins the tree, every other page keeps its bytes. -/
theorem joined_bytes (rep : Represents platform kernel tree) (absent : tree place = none)
    (free : kernel.frames frame = none) (swaps : kernel'.swap = kernel.swap)
    (memory : ∀ frame', tree (root, .page i j) = some frame' →
      kernel'.mem (frame' * pageSize + offset) = kernel.mem (frame' * pageSize + offset))
    (different : (root, .page i j) ≠ place) :
    byteAt kernel' (Function.update tree place (some frame)) (root, .page i j) offset =
      byteAt kernel tree (root, .page i j) offset := by
  rw [byteAt, byteAt, Function.update_of_ne different]
  cases present : tree (root, .page i j) with
  -- A page in a frame keeps its memory.
  | some frame' => exact memory _ present
  | none =>
    simp only [Option.elim_none]
    by_cases below : (root, Path.table i) = place
    · -- A page of a new table has no swap file, and had no entry before.
      subst below
      have child : (root, Path.page i j).2.parent = some (.table i) := rfl
      have missing : tree.slot (root, .page i j) = none := by rw [slot_child child, absent]; rfl
      have low := j.isLt
      have unsaved := rep.swap_of_unused free (Nat.le_add_right _ (entrySize * j)) (by
        simp only [entrySize, pageSize, numEntries] at low ⊢; omega)
      rw [savedByte_of_slot (slot_update_child child), swaps, savedByte, missing]
      simp only [Path.index]
      rw [unsaved]
      rfl
    · -- The entry of another page stays, and its swap file with it.
      have kept : Tree.slot (Function.update tree place (some frame)) (root, .page i j) =
          tree.slot (root, .page i j) :=
        slot_update_of_not_parent fun above parent same =>
          below (by rw [← same, ← Option.some.inj parent])
      rw [savedByte, savedByte, kept, swaps]

/-- Mapping an unused frame changes no byte of a page that is in another frame. -/
theorem mapped_page (rep : Represents platform kernel tree) {format : EntryFormat}
    {request : Option Nat} (at_slot : tree.slot place = some slot)
    (free : kernel.frames frame = none) (page : tree (root, .page i j) = some frame')
    (inside : offset < pageSize) :
    (mapEntry format (kernel.handOut frame request) slot (frame * pageSize)).mem
      (frame' * pageSize + offset) = kernel.mem (frame' * pageSize + offset) := by
  have apart := rep.slot_outside_page at_slot page
  have different : frame' ≠ frame := by
    intro same
    subst same
    exact rep.unused free page
  -- The page lies neither in the new frame nor around the entry.
  refine mapped_other ?_ ?_
  · simp only [pageSize] at inside ⊢
    omega
  · simp only [entrySize, pageSize] at apart inside ⊢
    omega

/-- A new page table changes no byte of a page. -/
theorem mapped_table_carries (rep : Represents platform kernel tree)
    (at_slot : tree.slot (root, .table i) = some slot) (absent : tree (root, .table i) = none)
    (free : kernel.frames frame = none) {format : EntryFormat} {request : Option Nat} :
    Carries kernel tree
      (mapEntry format (kernel.handOut frame request) slot (frame * pageSize))
      (Function.update tree (root, .table i) (some frame)) where
  directories _ := Function.update_of_ne (by simp) _ _
  tables root' i' frame' present := by
    rw [Function.update_of_ne, present]
    intro same
    rw [same, absent] at present
    cases present
  bytes _ _ _ _ inside := rep.joined_bytes absent free rfl
    (fun _ page => rep.mapped_page at_slot free page inside) (by simp)

/-- A new page directory changes no byte of a page. -/
theorem planted_bytes (rep : Represents platform kernel tree) (free : kernel.frames frame = none)
    {request : Option Nat} (inside : offset < pageSize) :
    byteAt (kernel.handOut frame request) (Function.update tree (frame, .directory) (some frame))
      (root, .page i j) offset = byteAt kernel tree (root, .page i j) offset := by
  refine rep.joined_bytes (rep.root_absent free) free rfl (fun frame' page => ?_) (by simp)
  have different : frame' ≠ frame := by
    intro same
    subst same
    exact rep.unused free page
  refine Memory.fill_of_outside ?_
  simp only [pageSize] at inside ⊢
  omega

/-- Marking a present entry keeps every frame where it is. -/
theorem marked (rep : Represents platform kernel tree)
    (at_slot : tree.slot (root, .page i j) = some slot) {dirtied : Bool} :
    Represents platform (markEntry platform kernel slot dirtied) tree :=
  { rep with
    entries := fun other slot' its => by
      by_cases same : other = (root, .page i j)
      · subst same
        obtain rfl := Option.some.inj (at_slot.symm.trans its)
        -- Marking keeps the base address and the present flag.
        have old := rep.entries _ _ its
        simp only [EntryFormat.target, Path.format] at old
        rw [← old]
        exact EntryFormat.target_write_same (platform.tableEntry.baseAddr_lt _)
      · rw [← rep.entries _ _ its]
        exact rep.target_kept at_slot its (Ne.symm same) }

/-- Marking an entry changes no byte of a page. -/
theorem marked_bytes (rep : Represents platform kernel tree) (at_slot : tree.slot place = some slot)
    {dirtied : Bool} (inside : offset < pageSize) :
    byteAt (markEntry platform kernel slot dirtied) tree (root, .page i j) offset =
      byteAt kernel tree (root, .page i j) offset := by
  rw [byteAt, byteAt]
  cases present : tree (root, .page i j) with
  | some frame => exact rep.page_kept at_slot present inside
  | none => rfl

/-- Writing into a page frame keeps every entry. -/
theorem written (rep : Represents platform kernel tree)
    (page : tree (root, .page i j) = some frame) {start : Nat} {bytes : List UInt8}
    (lower : frame * pageSize ≤ start) (upper : start + bytes.length ≤ (frame + 1) * pageSize) :
    Represents platform { kernel with mem := kernel.mem.writeBytes start bytes } tree :=
  { rep with
    entries := fun other slot its => by
      -- Entries lie outside pages, so no entry is overwritten.
      have outside := rep.slot_outside_page its page
      rw [← rep.entries _ _ its]
      exact EntryFormat.target_congr fun a below above => Memory.writeBytes_of_outside
        (by simp only [entrySize] at outside above; omega) }

/-- Writing into a page frame changes no byte of another page. -/
theorem written_bytes (rep : Represents platform kernel tree) {root' : Nat} {i' j' : Fin numEntries}
    (page : tree (root, .page i j) = some frame) {start : Nat} {bytes : List UInt8}
    (lower : frame * pageSize ≤ start) (upper : start + bytes.length ≤ (frame + 1) * pageSize)
    (different : (root', Path.page i' j') ≠ (root, .page i j)) (inside : offset < pageSize) :
    byteAt { kernel with mem := kernel.mem.writeBytes start bytes } tree (root', .page i' j') offset =
      byteAt kernel tree (root', .page i' j') offset := by
  rw [byteAt, byteAt]
  cases present : tree (root', .page i' j') with
  | none => rfl
  | some frame' =>
    -- Different pages are in different frames.
    have apart : frame' ≠ frame := by
      intro same
      subst same
      exact different (rep.injective _ _ _ present page)
    refine Memory.writeBytes_of_outside ?_
    simp only [pageSize] at lower upper inside ⊢
    omega

/-- Writing into a page puts the new bytes at their offsets and keeps the others. -/
theorem written_self (page : tree place = some frame) {start : Nat} {bytes : List UInt8} :
    byteAt { kernel with mem := kernel.mem.writeBytes (frame * pageSize + start) bytes } tree place
        offset =
      if start ≤ offset ∧ offset < start + bytes.length then bytes.getD (offset - start) 0
      else byteAt kernel tree place offset := by
  simp only [byteAt, page, Option.elim_some]
  split
  · rename_i inside
    -- The offset counted from the start of the written piece.
    have at_start : frame * pageSize + offset = frame * pageSize + start + (offset - start) := by
      omega
    rw [at_start]
    exact Memory.writeBytes_of_inside (by omega)
  · exact Memory.writeBytes_of_outside (by omega)

end Represents

end SystemProgramming.Mmu
