import SystemProgramming.Mmu.Access
import Mathlib.Data.List.FinRange

/-! Removing a process: the nested walk gives back exactly the frames below its directory. -/

namespace SystemProgramming.Mmu

open Foundations

/-- A kernel after some frames were given back, and some swap files deleted. -/
def Kernel.release (kernel : Kernel) (frames ptes : List Nat) : Kernel :=
  { kernel with
    frames := fun frame => if frame ∈ frames then none else kernel.frames frame
    swap := fun pte => if pte ∈ ptes then none else kernel.swap pte
    returned := kernel.returned ++ frames }

variable {platform : Platform} {st st' : State} {kernel kernel' : Kernel} {tree tree' : Tree}
  {frame root pid offset pt pd : Nat} {i j : Fin numEntries} {frames ptes : List Nat}

@[simp] theorem release_nil : kernel.release [] [] = kernel := by
  simp [Kernel.release]

@[simp] theorem release_mem : (kernel.release frames ptes).mem = kernel.mem := rfl

/-- A frame that is not released stays as it was. -/
theorem release_frames_of_outside (outside : frame ∉ frames) :
    (kernel.release frames ptes).frames frame = kernel.frames frame := if_neg outside

/-- A released frame is unused. -/
theorem release_frames_of_member (member : frame ∈ frames) :
    (kernel.release frames ptes).frames frame = none := if_pos member

/-- A swap file that is not deleted stays as it was. -/
theorem release_swap_of_outside {pte : Nat} (outside : pte ∉ ptes) :
    (kernel.release frames ptes).swap pte = kernel.swap pte := if_neg outside

/-- A deleted swap file is gone. -/
theorem release_swap_of_member {pte : Nat} (member : pte ∈ ptes) :
    (kernel.release frames ptes).swap pte = none := if_pos member

/-- Releases in a row are one release of everything. -/
theorem release_release {frames' ptes' : List Nat} :
    (kernel.release frames ptes).release frames' ptes' =
      kernel.release (frames ++ frames') (ptes ++ ptes') := by
  simp only [Kernel.release, List.append_assoc, List.mem_append, Kernel.mk.injEq, true_and, and_true]
  -- A frame is unused when either release has it, and likewise a swap file is gone.
  constructor <;> funext place <;> split_ifs <;> simp_all

theorem returnFrameToKernel_eq : returnFrameToKernel kernel (frame * pageSize) =
    kernel.release [frame] [] := by
  have same : frame * pageSize / pageSize = frame := Nat.mul_div_cancel _ (by decide)
  simp only [returnFrameToKernel, Kernel.release, same, List.mem_singleton, List.not_mem_nil,
    if_false, Kernel.mk.injEq, true_and, and_true]
  funext place
  rw [Function.update_apply]

theorem removeSwapFile_eq {pte : Nat} : removeSwapFile kernel pte = kernel.release [] [pte] := by
  simp only [removeSwapFile, Kernel.release, List.mem_singleton, List.not_mem_nil, if_false,
    List.append_nil, Kernel.mk.injEq, true_and, and_true]
  funext place
  rw [Function.update_apply]

/-- A loop whose rounds release what they find in memory releases it all, in order. -/
theorem foldl_release {round : Kernel → Nat → Kernel} {found paged : Memory → Nat → List Nat}
    (rounds : ∀ kernel x, round kernel x = kernel.release (found kernel.mem x) (paged kernel.mem x))
    (kernel : Kernel) (indices : List Nat) : indices.foldl round kernel =
      kernel.release (indices.flatMap (found kernel.mem)) (indices.flatMap (paged kernel.mem)) := by
  -- A release leaves memory alone, so every round finds what was there at the start.
  induction indices generalizing kernel with
  | nil => simp
  | cons index rest ih =>
    rw [List.foldl_cons, rounds, ih, release_release]
    rfl

/-- One round of the inner loop releases the frame of the page, and its swap file. -/
theorem removeEntry_eq {vpn2 : Nat} : removeEntry platform pt kernel vpn2 =
    kernel.release (platform.tableEntry.target kernel.mem (pt + entrySize * vpn2)).toList
      [pt + entrySize * vpn2] := by
  rw [removeEntry, EntryFormat.target]
  -- The swap file goes in both cases, the frame only when the page is present.
  split
  · simp [returnFrameToKernel_eq, removeSwapFile_eq, release_release]
  · simp [removeSwapFile_eq]

/-- The frames of the pages of a table, in the order of the walk. -/
def pageFrames (platform : Platform) (pt : Nat) (memory : Memory) : List Nat :=
  (List.range numEntries).flatMap fun vpn2 =>
    (platform.tableEntry.target memory (pt + entrySize * vpn2)).toList

/-- The addresses of the entries of a table. -/
def entryAddresses (pt : Nat) : List Nat :=
  (List.range numEntries).flatMap fun vpn2 => [pt + entrySize * vpn2]

/-- The inner loop releases the pages of a table and all of its swap files. -/
theorem removeEntries_eq : (List.range numEntries).foldl (removeEntry platform pt) kernel =
    kernel.release (pageFrames platform pt kernel.mem) (entryAddresses pt) :=
  @foldl_release (removeEntry platform pt)
    (fun memory vpn2 => (platform.tableEntry.target memory (pt + entrySize * vpn2)).toList)
    (fun _ vpn2 => [pt + entrySize * vpn2]) (fun _ _ => removeEntry_eq) kernel _

/-- The frames below an entry of a page directory, in the order of the walk. -/
def tableFrames (platform : Platform) (pd : Nat) (memory : Memory) (vpn1 : Nat) : List Nat :=
  (platform.directoryEntry.target memory (pd + entrySize * vpn1)).elim [] fun table =>
    pageFrames platform (table * pageSize) memory ++ [table]

/-- The page table entries below an entry of a page directory. -/
def tableEntries (platform : Platform) (pd : Nat) (memory : Memory) (vpn1 : Nat) : List Nat :=
  (platform.directoryEntry.target memory (pd + entrySize * vpn1)).elim [] fun table =>
    entryAddresses (table * pageSize)

/-- One round of the outer loop releases a table with everything below it. -/
theorem removeTable_eq {vpn1 : Nat} : removeTable platform pd kernel vpn1 =
    kernel.release (tableFrames platform pd kernel.mem vpn1)
      (tableEntries platform pd kernel.mem vpn1) := by
  rw [removeTable, tableFrames, tableEntries, EntryFormat.target]
  split
  · simp only [removeEntries_eq, returnFrameToKernel_eq, release_release, List.append_nil,
      Option.elim_some]
  · exact release_nil.symm

/-- Everything below a page directory, and the directory last. -/
def directoryFrames (platform : Platform) (memory : Memory) (root : Nat) : List Nat :=
  ((List.range numEntries).flatMap (tableFrames platform (root * pageSize) memory)) ++ [root]

/-- All page table entries below a page directory. -/
def directoryEntries (platform : Platform) (memory : Memory) (root : Nat) : List Nat :=
  (List.range numEntries).flatMap (tableEntries platform (root * pageSize) memory)

/-- The nested walk releases everything below the directory, and the directory. -/
theorem removeDirectory_eq : removeDirectory platform kernel (some (root * pageSize)) =
    kernel.release (directoryFrames platform kernel.mem root)
      (directoryEntries platform kernel.mem root) := by
  have outer := @foldl_release (removeTable platform (root * pageSize))
    (tableFrames platform (root * pageSize)) (tableEntries platform (root * pageSize))
    (fun _ _ => removeTable_eq) kernel (List.range numEntries)
  rw [removeDirectory, outer, returnFrameToKernel_eq, release_release, List.append_nil]
  rfl

/-- The places below a page directory, in the order of the walk. -/
def walk : List Path :=
  ((List.finRange numEntries).flatMap fun i =>
    ((List.finRange numEntries).map fun j => Path.page i j) ++ [.table i]) ++ [.directory]

/-- The walk visits every place. -/
theorem mem_walk (path : Path) : path ∈ walk := by
  -- Every table and every page has its turn, and the directory is last.
  cases path with
  | directory => simp [walk]
  | table i => simp [walk]
  | page i j => simp [walk]

/-- The walk visits no place twice. -/
theorem nodup_walk : walk.Nodup := by
  have pages (i : Fin numEntries) : ((List.finRange numEntries).map fun j => Path.page i j).Nodup :=
    (List.nodup_finRange _).map fun _ _ same => (Path.page.inj same).2
  have tables : ((List.finRange numEntries).flatMap fun i =>
      ((List.finRange numEntries).map fun j => Path.page i j) ++ [Path.table i]).Nodup := by
    refine List.nodup_flatMap.mpr ⟨fun i _ => ?_, ?_⟩
    · refine (pages i).append (List.nodup_singleton _) fun path paged tabled => ?_
      obtain ⟨j, _, rfl⟩ := List.mem_map.mp paged
      cases List.mem_singleton.mp tabled
    · -- Places below different tables are different.
      refine (List.nodup_finRange _).imp fun {i i'} different path mine its => different ?_
      simp only [List.mem_append, List.mem_map, List.mem_singleton] at mine its
      rcases mine with ⟨j, _, rfl⟩ | rfl
      · rcases its with ⟨j', _, same⟩ | same
        · exact (Path.page.inj same).1.symm
        · cases same
      · rcases its with ⟨j', _, same⟩ | same
        · cases same
        · exact Path.table.inj same
  -- The directory is neither a table nor a page.
  refine tables.append (List.nodup_singleton _) fun path below root => ?_
  obtain rfl := List.mem_singleton.mp root
  simp at below

/-- A loop over the indices of a table, as one over the places below it. -/
theorem flatMap_range {found : Nat → List Nat} : (List.range numEntries).flatMap found =
    (List.finRange numEntries).flatMap fun i : Fin numEntries => found i.val := by
  rw [← List.map_coe_finRange_eq_range, List.flatMap_map]

namespace Represents

/-- The pages that the walk finds below a table. -/
theorem pageFrames_eq (rep : Represents platform kernel tree)
    (present : tree (root, .table i) = some frame) :
    pageFrames platform (frame * pageSize) kernel.mem =
      ((List.finRange numEntries).map fun j => Path.page i j).filterMap fun path =>
        tree (root, path) := by
  -- Each entry of the table points to the frame of its page, or nowhere.
  rw [List.filterMap_map, List.filterMap_eq_flatMap_toList, pageFrames, flatMap_range]
  exact List.flatMap_congr fun j _ => congrArg Option.toList (rep.target_page present j)

/-- The frames that the walk gives back are those of the places it visits. -/
theorem directoryFrames_eq (rep : Represents platform kernel tree)
    (planted : tree (root, .directory) = some root) :
    directoryFrames platform kernel.mem root = walk.filterMap fun path => tree (root, path) := by
  have last : [root] = [Path.directory].filterMap fun path => tree (root, path) := by
    simp [planted]
  rw [directoryFrames, walk, List.filterMap_append, ← last, List.filterMap_flatMap, flatMap_range]
  -- Table by table, the walk finds the pages first and the table after them.
  refine congrArg (· ++ [root]) (List.flatMap_congr fun i _ => ?_)
  rw [tableFrames, rep.target_table planted, List.filterMap_append]
  cases present : tree (root, .table i) with
  | some frame =>
    simp only [Option.elim_some, rep.pageFrames_eq present, List.filterMap_cons, present,
      List.filterMap_nil]
  | none =>
    -- Without a table there is no page, so the walk finds nothing and there is nothing.
    have no_page (j : Fin numEntries) : tree (root, .page i j) = none :=
      rep.rooted _ (by simp) (by rw [slot_page, present]; rfl)
    simp only [Option.elim_none, List.filterMap_map, Function.comp_def, no_page,
      List.filterMap_cons, present, List.filterMap_nil, List.append_nil]
    simp

/-- The swap files that the walk deletes are those of the entries below the directory. -/
theorem mem_directoryEntries (rep : Represents platform kernel tree)
    (planted : tree (root, .directory) = some root) {pte : Nat} :
    pte ∈ directoryEntries platform kernel.mem root ↔
      ∃ i j, tree.slot (root, .page i j) = some pte := by
  simp only [directoryEntries, flatMap_range, List.mem_flatMap, List.mem_finRange, true_and,
    tableEntries, rep.target_table planted, slot_page]
  refine exists_congr fun i => ?_
  cases tree (root, .table i) with
  | none => simp
  | some frame =>
    simp only [Option.elim_some, entryAddresses, flatMap_range, List.mem_flatMap,
      List.mem_finRange, true_and, List.mem_singleton, Option.map_some, Option.some.injEq]
    exact exists_congr fun j => eq_comm

/-- The walk gives back each frame below the directory once, and no other frame. -/
theorem nodup_directoryFrames (rep : Represents platform kernel tree)
    (planted : tree (root, .directory) = some root) :
    (directoryFrames platform kernel.mem root).Nodup := by
  rw [rep.directoryFrames_eq planted]
  -- No place is visited twice, and no two places have the same frame.
  refine List.Nodup.filterMap (fun path path' frame mine its => ?_) nodup_walk
  exact congrArg Prod.snd (rep.injective _ _ _ mine its)

/-- The frames that the walk gives back are those that stand below the directory. -/
theorem mem_directoryFrames (rep : Represents platform kernel tree)
    (planted : tree (root, .directory) = some root) :
    frame ∈ directoryFrames platform kernel.mem root ↔ ∃ path, tree (root, path) = some frame := by
  rw [rep.directoryFrames_eq planted, List.mem_filterMap]
  exact ⟨fun ⟨path, _, present⟩ => ⟨path, present⟩, fun ⟨path, present⟩ =>
    ⟨path, mem_walk path, present⟩⟩

end Represents

/-- The tree after everything below a directory is gone. -/
def Tree.without (tree : Tree) (root : Nat) : Tree := fun place =>
  if place.1 = root then none else tree place

/-- What stands without a directory stood there before, and not below that directory. -/
theorem present_of_without {place : Place} (present : tree.without root place = some frame) :
    place.1 ≠ root ∧ tree place = some frame := by
  rw [Tree.without] at present
  split at present
  · cases present
  · rename_i other
    exact ⟨other, present⟩

theorem slot_without {place : Place} : (tree.without root).slot place =
    if place.1 = root then none else tree.slot place := by
  rw [Tree.slot, Tree.slot]
  -- Below the removed directory nothing is left that could hold an entry.
  by_cases gone : place.1 = root
  · rw [if_pos gone]
    cases place.2.parent <;> simp [Tree.without, gone]
  · rw [if_neg gone]
    simp only [Tree.without, if_neg gone]

theorem tag_without {place : Place} (other : place.1 ≠ root) :
    (tree.without root).tag place = tree.tag place := by
  obtain ⟨root', path⟩ := place
  cases path with
  | page i j => exact slot_without.trans (if_neg other)
  | table i => rfl
  | directory => rfl

namespace Represents

/-- A frame outside a directory is not among those that the walk gives back. -/
theorem not_mem_directoryFrames (rep : Represents platform kernel tree)
    (planted : tree (root, .directory) = some root) {place : Place}
    (present : tree place = some frame) (other : place.1 ≠ root) :
    frame ∉ directoryFrames platform kernel.mem root := by
  intro member
  -- Otherwise one frame would stand at two places.
  obtain ⟨path, found⟩ := (rep.mem_directoryFrames planted).mp member
  exact other (congrArg Prod.fst (rep.injective _ _ _ present found))

/-- Nor is the swap file of an outside entry among those that the walk deletes. -/
theorem not_mem_directoryEntries (rep : Represents platform kernel tree)
    (planted : tree (root, .directory) = some root) {place : Place} {pte : Nat}
    (at_slot : tree.slot place = some pte) (other : place.1 ≠ root) :
    pte ∉ directoryEntries platform kernel.mem root := by
  intro member
  obtain ⟨i, j, its⟩ := (rep.mem_directoryEntries planted).mp member
  have different : place ≠ (root, .page i j) := fun same => other (congrArg Prod.fst same)
  -- Entries of different places do not overlap, so they have different addresses.
  have apart := rep.slots_apart at_slot its different
  simp only [entrySize] at apart
  omega

/-- After everything below a directory was given back, the rest of the tree stands. -/
theorem removed (rep : Represents platform kernel tree)
    (planted : tree (root, .directory) = some root) :
    Represents platform (kernel.release (directoryFrames platform kernel.mem root)
      (directoryEntries platform kernel.mem root)) (tree.without root) where
  entries place slot its := by
    rw [slot_without] at its
    split at its
    · cases its
    · rename_i other
      rw [release_mem, rep.entries _ _ its, Tree.without, if_neg other]
  rooted place below missing := by
    rw [slot_without] at missing
    rw [Tree.without]
    split
    · rfl
    · rename_i other
      rw [if_neg other] at missing
      exact rep.rooted _ below missing
  roots root' frame present := rep.roots _ _ (present_of_without present).2
  owned place frame present := by
    obtain ⟨other, old⟩ := present_of_without present
    rw [tag_without other,
      release_frames_of_outside (rep.not_mem_directoryFrames planted old other)]
    exact rep.owned _ _ old
  used frame tag used := by
    by_cases member : frame ∈ directoryFrames platform kernel.mem root
    · rw [release_frames_of_member member] at used
      cases used
    · rw [release_frames_of_outside member] at used
      obtain ⟨⟨root', path⟩, present⟩ := rep.used _ _ used
      -- A frame that was not released is not below the removed directory.
      have other : root' ≠ root := by
        intro same
        subst same
        exact member ((rep.mem_directoryFrames planted).mpr ⟨path, present⟩)
      exact ⟨(root', path), (if_neg other).trans present⟩
  injective place place' frame mine its :=
    rep.injective _ _ _ (present_of_without mine).2 (present_of_without its).2
  bounded place frame present := rep.bounded _ _ (present_of_without present).2
  swapped pte page saved := by
    by_cases member : pte ∈ directoryEntries platform kernel.mem root
    · rw [release_swap_of_member member] at saved
      cases saved
    · -- A swap file that was not deleted belongs to another address space.
      rw [release_swap_of_outside member] at saved
      obtain ⟨length, root', i, j, its⟩ := rep.swapped _ _ saved
      refine ⟨length, root', i, j, ?_⟩
      rw [slot_without, if_neg, its]
      intro same
      subst same
      exact member ((rep.mem_directoryEntries planted).mpr ⟨i, j, its⟩)

/-- No byte of another address space changes. -/
theorem removed_bytes (rep : Represents platform kernel tree)
    (planted : tree (root, .directory) = some root) {place : Place} (other : place.1 ≠ root) :
    byteAt (kernel.release (directoryFrames platform kernel.mem root)
      (directoryEntries platform kernel.mem root)) (tree.without root) place offset =
      byteAt kernel tree place offset := by
  have same : tree.without root place = tree place := if_neg other
  rw [byteAt, byteAt, same]
  cases present : tree place with
  | some frame => rw [Option.elim_some, Option.elim_some, release_mem]
  | none =>
    rw [Option.elim_none, Option.elim_none, savedByte, savedByte, slot_without, if_neg other]
    cases its : tree.slot place with
    | none => rw [Option.bind_none, Option.bind_none]
    | some pte =>
      -- The page is not in a frame, and its swap file is not among the deleted ones.
      have outside := rep.not_mem_directoryEntries planted its other
      rw [Option.bind_some, Option.bind_some, release_swap_of_outside outside]

end Represents

@[simp] theorem removeProcess_kernel : (removeProcess platform st pid).kernel =
    removeDirectory platform st.kernel (st.pageDirectories pid) := by
  rw [removeProcess]
  split <;> rfl

@[simp] theorem removeProcess_pageDirectories : (removeProcess platform st pid).pageDirectories =
    Function.update st.pageDirectories pid none := by
  rw [removeProcess]
  split <;> rfl

@[simp] theorem removeProcess_currPid : (removeProcess platform st pid).currPid = st.currPid := by
  rw [removeProcess]
  split <;> rfl

/-- The cache is flushed when the removed process is the current one, and kept otherwise. -/
theorem removeProcess_tlb : (removeProcess platform st pid).tlb =
    if st.currPid = pid then [] else st.tlb := by
  by_cases same : st.currPid = pid
  · rw [if_pos same, removeProcess, if_pos same]
    rfl
  · rw [if_neg same, removeProcess, if_neg same]

/-- A removal is consistent when it leaves the address spaces of the other processes in place. -/
theorem Consistent.remaining (consistent : Consistent platform st tree)
    (rep : Represents platform (removeProcess platform st pid).kernel tree')
    (others : ∀ pid' root, pid' ≠ pid → st.pageDirectories pid' = some (root * pageSize) →
      ∀ path, tree' (root, path) = tree (root, path)) :
    Consistent platform (removeProcess platform st pid) tree' where
  represents := rep
  planted pid' pd used := by
    rw [removeProcess_pageDirectories, Function.update_apply] at used
    split at used
    · cases used
    · -- A process that is still live is another one, so its tree is unchanged.
      rename_i other
      obtain ⟨root, rfl, present⟩ := consistent.planted _ _ used
      exact ⟨root, rfl, (others _ _ other used _).trans present⟩
  unshared one two pd used used' := by
    rw [removeProcess_pageDirectories, Function.update_apply] at used used'
    split at used
    · cases used
    · split at used'
      · cases used'
      · exact consistent.unshared _ _ _ used used'
  cached base pte member := by
    rw [removeProcess_tlb] at member
    split at member
    · exact absurd member List.not_mem_nil
    · -- The cache belongs to another process, whose tables are still there.
      rename_i other
      obtain ⟨root, virtualAddress, current, key, at_slot⟩ := consistent.cached _ _ member
      refine ⟨root, virtualAddress, ?_, key, ?_⟩
      · rw [removeProcess_pageDirectories, removeProcess_currPid, Function.update_of_ne other,
          current]
      · rw [pageOf, slot_page, others _ _ other current, ← slot_page]
        exact at_slot

/-- What removing a process does to the tree: its directory goes with everything below it. -/
structure Removed (platform : Platform) (st : State) (tree : Tree) (pid : Nat) (tree' : Tree) :
    Prop where
  consistent : Consistent platform (removeProcess platform st pid) tree'
  gone : ∀ root, st.pageDirectories pid = some (root * pageSize) → tree' = tree.without root
  idle : st.pageDirectories pid = none → tree' = tree
  bytes : ∀ root, st.pageDirectories pid ≠ some (root * pageSize) → ∀ i j offset,
    byteAt (removeProcess platform st pid).kernel tree' (root, .page i j) offset =
      byteAt st.kernel tree (root, .page i j) offset

/-- Any process may be removed, live or not, current or not. -/
theorem removeProcess_spec (consistent : Consistent platform st tree) (pid : Nat) :
    ∃ tree', Removed platform st tree pid tree' := by
  have rep := consistent.represents
  cases live : st.pageDirectories pid with
  | none =>
    -- A process that is not live has nothing to give back.
    have same : (removeProcess platform st pid).kernel = st.kernel := by
      rw [removeProcess_kernel, live, removeDirectory]
    refine ⟨tree, consistent.remaining (same ▸ rep) fun _ _ _ _ _ => rfl, fun root used => ?_,
      fun _ => rfl, fun root _ i j offset => by rw [same]⟩
    rw [live] at used
    cases used
  | some pd =>
    obtain ⟨root, rfl, planted⟩ := consistent.planted _ _ live
    have same : (removeProcess platform st pid).kernel =
        st.kernel.release (directoryFrames platform st.kernel.mem root)
          (directoryEntries platform st.kernel.mem root) := by
      rw [removeProcess_kernel, live, removeDirectory_eq]
    refine ⟨tree.without root, consistent.remaining (same ▸ rep.removed planted) ?_, ?_, ?_, ?_⟩
    · intro pid' root' other used path
      -- Processes do not share a directory.
      have apart : root' ≠ root := by
        intro same
        subst same
        exact other (consistent.unshared _ _ _ used live)
      rw [Tree.without, if_neg apart]
    · intro root' used
      have equal := Option.some.inj (live.symm.trans used)
      rw [Nat.eq_of_mul_eq_mul_right (by decide) equal]
    · intro idle
      rw [live] at idle
      cases idle
    · intro root' different i j offset
      have apart : root' ≠ root := by
        intro same
        subst same
        exact different live
      rw [same]
      exact rep.removed_bytes planted apart

end SystemProgramming.Mmu
