import SystemProgramming.Mmu.Paging

/-! Page faults: finding room, mapping a frame, restoring a page, and what they leave alone. -/

namespace SystemProgramming.Mmu

open Foundations

variable {platform : Platform} {kernel kernel' : Kernel} {tree tree' : Tree} {place other : Place}
  {slot slot' frame frame' root offset : Nat} {i j : Fin numEntries} {choice : Choice}

/-- After the kernel made room, at most one page has left its frame. -/
structure MadeRoom (platform : Platform) (kernel : Kernel) (tree : Tree) (kernel' : Kernel)
    (tree' : Tree) : Prop extends Carries kernel tree kernel' tree' where
  represents : Represents platform kernel' tree'
  absent : ∀ place, tree place = none → tree' place = none
  slots : ∀ place, tree'.slot place = tree.slot place
  swaps : ∀ root i j slot, tree.slot (root, .page i j) = some slot →
    tree (root, .page i j) = none → kernel'.swap slot = kernel.swap slot

/-- Whatever the kernel evicts, the address spaces keep their bytes. -/
theorem makeRoom_spec (rep : Represents platform kernel tree) {evicted : Option Nat}
    (room : kernel.makeRoom platform.tableEntry evicted = some kernel') :
    ∃ tree', MadeRoom platform kernel tree kernel' tree' := by
  cases evicted with
  | none =>
    obtain rfl := Option.some.inj room
    exact ⟨tree, .refl, rep, fun _ absent => absent, fun _ => rfl, fun _ _ _ _ _ _ => rfl⟩
  | some frame =>
    -- Only a page can be evicted, because only pages are requested for an entry.
    obtain ⟨pte, tagged, rfl⟩ := evict_eq room
    obtain ⟨root, i, j, page, at_slot⟩ := rep.page_of_tag tagged
    refine ⟨_, rep.evicted_carries page at_slot, rep.evicted page at_slot, ?_, fun _ => slot_update_page,
      ?_⟩
    · intro place absent
      rw [Function.update_apply, absent, ite_self]
    · -- The page that is not in a frame is another one than the evicted page.
      intro root' i' j' slot its absent
      have different : (root, Path.page i j) ≠ (root', .page i' j') := by
        intro same
        rw [← same, page] at absent
        cases absent
      have apart := rep.slots_apart at_slot its different
      refine Function.update_of_ne ?_ _ _
      simp only [entrySize] at apart
      omega

/-- Mapping a frame makes room first; what was handed out was unused then. -/
theorem mapFrame_eq {format : EntryFormat} {request : Option Nat}
    (mapped : mapFrame platform format choice kernel request slot = some kernel') :
    ∃ middle, kernel.makeRoom platform.tableEntry choice.evicted = some middle ∧
      choice.frame < 2 ^ 20 ∧ middle.frames choice.frame = none ∧
      kernel' = mapEntry format (middle.handOut choice.frame request) slot
        (choice.frame * pageSize) := by
  rw [mapFrame, askKernelForFrame] at mapped
  obtain ⟨pair, asked, rest⟩ := Option.bind_eq_some_iff.mp mapped
  obtain ⟨middle, room, given⟩ := Option.bind_eq_some_iff.mp asked
  split at given
  · rename_i unused
    obtain rfl := Option.some.inj given
    exact ⟨middle, room, unused.1, unused.2, (Option.some.inj rest).symm⟩
  · cases given

namespace Represents

/-- A new page table joins the tree without pages, and no byte of a page changes. -/
theorem map_table (rep : Represents platform kernel tree)
    (at_slot : tree.slot (root, .table i) = some slot) (absent : tree (root, .table i) = none)
    (mapped : mapFrame platform platform.directoryEntry choice kernel none slot = some kernel') :
    ∃ tree', Represents platform kernel' tree' ∧ Carries kernel tree kernel' tree' ∧
      tree' (root, .table i) = some choice.frame ∧
      ∀ j pte, tree'.slot (root, .page i j) = some pte →
        tree' (root, .page i j) = none ∧ kernel'.swap pte = none := by
  obtain ⟨middle, room, small, free, rfl⟩ := mapFrame_eq mapped
  obtain ⟨between, made⟩ := makeRoom_spec rep room
  have rep' := made.represents
  have at_slot' := (made.slots _).trans at_slot
  have absent' := made.absent _ absent
  refine ⟨_, rep'.mapped at_slot' absent' free small,
    made.toCarries.trans (rep'.mapped_table_carries at_slot' absent' free),
    Function.update_self _ _ _, fun j pte its => ?_⟩
  -- The new table was an unused frame, so below it there are neither frames nor swap files.
  have child : (root, Path.page i j).2.parent = some (.table i) := rfl
  have missing : between.slot (root, .page i j) = none := by rw [slot_child child, absent']; rfl
  rw [slot_update_child child] at its
  obtain rfl := Option.some.inj its
  have low := j.isLt
  refine ⟨(Function.update_of_ne (by simp) _ _).trans (rep'.rooted _ (by simp) missing),
    rep'.swap_of_unused free (Nat.le_add_right _ _) ?_⟩
  simp only [Path.index, entrySize, pageSize, numEntries] at low ⊢
  omega

/-- Reading a page from disk writes the saved bytes into its frame, or nothing. -/
theorem readPageFromDisk_eq (rep : Represents platform kernel tree)
    (at_slot : tree.slot (root, .page i j) = some slot)
    (page : tree (root, .page i j) = some frame) :
    readPageFromDisk platform.tableEntry kernel slot = (kernel.swap slot).elim kernel fun bytes =>
      { kernel with mem := kernel.mem.writeBytes (frame * pageSize) bytes } := by
  -- The entry was mapped just before, so its base address is the frame of the page.
  have base := (EntryFormat.target_eq_some.mp ((rep.entries _ _ at_slot).trans page)).2
  simp only [Path.format] at base
  rw [readPageFromDisk]
  cases kernel.swap slot with
  | none => rfl
  | some bytes => simp only [Option.elim_some, base]

/-- Restoring a page keeps every frame where it is. -/
theorem restored (rep : Represents platform kernel tree)
    (at_slot : tree.slot (root, .page i j) = some slot)
    (page : tree (root, .page i j) = some frame) :
    Represents platform (readPageFromDisk platform.tableEntry kernel slot) tree := by
  rw [rep.readPageFromDisk_eq at_slot page]
  cases saved : kernel.swap slot with
  | none => exact rep
  -- A swap file has exactly one page, so the bytes stay inside the frame.
  | some bytes =>
    obtain ⟨length, _⟩ := rep.swapped _ _ saved
    exact rep.written page (Nat.le_refl _) (by simp only [length, pageSize]; omega)

/-- Restoring a page leaves all other pages alone. -/
theorem restored_other (rep : Represents platform kernel tree)
    (at_slot : tree.slot (root, .page i j) = some slot)
    (page : tree (root, .page i j) = some frame) {root' : Nat} {i' j' : Fin numEntries}
    (different : (root', Path.page i' j') ≠ (root, .page i j)) (inside : offset < pageSize) :
    byteAt (readPageFromDisk platform.tableEntry kernel slot) tree (root', .page i' j') offset =
      byteAt kernel tree (root', .page i' j') offset := by
  rw [rep.readPageFromDisk_eq at_slot page]
  cases saved : kernel.swap slot with
  | none => rfl
  | some bytes =>
    obtain ⟨length, _⟩ := rep.swapped _ _ saved
    exact rep.written_bytes page (Nat.le_refl _) (by simp only [length, pageSize]; omega) different
      inside

/-- A page of zeros that is restored has the bytes that were saved for it, or stays zero. -/
theorem restored_self (rep : Represents platform kernel tree)
    (at_slot : tree.slot (root, .page i j) = some slot)
    (page : tree (root, .page i j) = some frame)
    (zero : kernel.mem (frame * pageSize + offset) = 0) (inside : offset < pageSize) :
    byteAt (readPageFromDisk platform.tableEntry kernel slot) tree (root, .page i j) offset =
      (kernel.swap slot).elim 0 fun bytes => bytes.getD offset 0 := by
  rw [rep.readPageFromDisk_eq at_slot page, byteAt, page]
  cases saved : kernel.swap slot with
  -- A page that was never saved starts with the zeros of its frame.
  | none => exact zero
  | some bytes =>
    obtain ⟨length, _⟩ := rep.swapped _ _ saved
    exact Memory.writeBytes_of_inside (by rw [length]; exact inside)

/-- A page that is mapped and restored joins the tree, and no byte of a page changes. -/
theorem map_page (rep : Represents platform kernel tree)
    (at_slot : tree.slot (root, .page i j) = some slot) (absent : tree (root, .page i j) = none)
    (mapped : mapFrame platform platform.tableEntry choice kernel (some slot) slot = some kernel') :
    ∃ tree', Represents platform (readPageFromDisk platform.tableEntry kernel' slot) tree' ∧
      Carries kernel tree (readPageFromDisk platform.tableEntry kernel' slot) tree' ∧
      tree' (root, .page i j) = some choice.frame ∧
      (∀ other, other ≠ (root, .page i j) → tree other = none → tree' other = none) ∧
      ∀ root' i' j' slot', tree.slot (root', .page i' j') = some slot' →
        tree (root', .page i' j') = none → kernel'.swap slot' = kernel.swap slot' := by
  obtain ⟨middle, room, small, free, rfl⟩ := mapFrame_eq mapped
  obtain ⟨between, made⟩ := makeRoom_spec rep room
  have at_slot' := (made.slots _).trans at_slot
  have absent' := made.absent _ absent
  -- The frame is requested for the entry of the page itself.
  have tag : some slot = between.tag (root, .page i j) := at_slot'.symm
  have joined := made.represents.mapped at_slot' absent' free small
  have its : Tree.slot (Function.update between (root, .page i j) (some choice.frame))
      (root, .page i j) = some slot := slot_update_page.trans at_slot'
  have page := Function.update_self (root, Path.page i j) (some choice.frame) between
  -- Making room evicts another page, so the swap file of this one is untouched.
  have swap : middle.swap slot = kernel.swap slot := made.swaps _ _ _ _ at_slot absent
  rw [← tag] at joined
  refine ⟨_, joined.restored its page, ⟨fun _ => ?_, ?_, ?_⟩, page, fun other different missing =>
    (Function.update_of_ne different _ _).trans (made.absent _ missing), made.swaps⟩
  · -- A page is neither a directory nor a table, so these stay.
    rw [Function.update_of_ne (by simp), made.directories]
  · intro root' i' frame present
    rw [Function.update_of_ne (by simp), made.tables _ _ _ present]
  · intro root' i' j' offset inside
    by_cases same : (root', Path.page i' j') = (root, .page i j)
    · -- The page itself had no frame, so its bytes were the saved ones or zero.
      rw [same]
      have zero : (mapEntry platform.tableEntry (middle.handOut choice.frame (some slot)) slot
          (choice.frame * pageSize)).mem (choice.frame * pageSize + offset) = 0 :=
        made.represents.mapped_zeros at_slot' free (Nat.le_add_right _ _)
          (by simp only [pageSize] at inside ⊢; omega)
      refine (joined.restored_self its page zero inside).trans ?_
      rw [byteAt, absent, Option.elim_none, savedByte_of_slot at_slot, ← swap]
      rfl
    · -- Another page: neither the restoring, nor the mapping, nor the eviction changed its bytes.
      refine (joined.restored_other its page same inside).trans ?_
      refine Eq.trans ?_ (made.bytes _ _ _ _ inside)
      exact made.represents.joined_bytes absent' free rfl
        (fun _ other => made.represents.mapped_page at_slot' free other inside) same

end Represents

end SystemProgramming.Mmu
