import SystemProgramming.Mmu.Access

/-! Adding a process: a new page directory, one page table, and two pages of zeros. -/

namespace SystemProgramming.Mmu

open Foundations

variable {platform : Platform} {st st' : State} {kernel kernel' : Kernel} {tree tree' : Tree}
  {frame root pid : Nat} {i j : Fin numEntries} {choice : Choice} {choices : AddChoices}

/-- There is no table below a directory that is not there. -/
theorem Represents.no_table_below (rep : Represents platform kernel tree)
    (absent : tree (root, .directory) = none) (i : Fin numEntries) :
    tree (root, .table i) = none :=
  rep.rooted _ (by simp) (by rw [slot_table, absent]; rfl)

/-- The pages below a directory that is not there are zero. -/
theorem Represents.zero_below (rep : Represents platform kernel tree)
    (absent : tree (root, .directory) = none) (i j : Fin numEntries) (offset : Nat) :
    byteAt kernel tree (root, .page i j) offset = 0 := by
  have no_slot : tree.slot (root, .page i j) = none := by
    rw [slot_page, rep.no_table_below absent]
    rfl
  have no_page : tree (root, .page i j) = none := rep.rooted _ (by simp) no_slot
  rw [byteAt, no_page, Option.elim_none, savedByte, no_slot]
  rfl

/-- Asking for a frame makes room first; what was handed out was unused then. -/
theorem askKernelForFrame_eq {request : Option Nat} {address : Nat}
    (asked : askKernelForFrame platform.tableEntry choice kernel request = some (address, kernel')) :
    ∃ middle, kernel.makeRoom platform.tableEntry choice.evicted = some middle ∧
      choice.frame < 2 ^ 20 ∧ middle.frames choice.frame = none ∧
      address = choice.frame * pageSize ∧ kernel' = middle.handOut choice.frame request := by
  rw [askKernelForFrame] at asked
  obtain ⟨middle, room, given⟩ := Option.bind_eq_some_iff.mp asked
  split at given
  · rename_i unused
    obtain ⟨rfl, rfl⟩ := Prod.mk.inj (Option.some.inj given)
    exact ⟨middle, room, unused.1, unused.2, rfl, rfl⟩
  · cases given

/-- A page that is neither in a frame nor saved. -/
def Blank (kernel : Kernel) (tree : Tree) (place : Place) : Prop :=
  tree place = none ∧ ∀ pte, tree.slot place = some pte → kernel.swap pte = none

/-- A blank page of a new process is mapped without reading from disk, and stays zero. -/
theorem mapTestPage_spec (rep : Represents platform kernel tree)
    (planted : tree (root, .directory) = some root) (table : tree (root, .table i) = some frame)
    (blank : Blank kernel tree (root, .page i j))
    (mapped : mapTestPage platform choice (root * pageSize + entrySize * i) j kernel = some kernel') :
    ∃ tree', Represents platform kernel' tree' ∧ Carries kernel tree kernel' tree' ∧
      ∀ j', j' ≠ j → Blank kernel tree (root, .page i j') → Blank kernel' tree' (root, .page i j') := by
  have at_table : tree.slot (root, .table i) = some (root * pageSize + entrySize * i) := by
    rw [slot_table, planted]
    rfl
  have base := (EntryFormat.target_eq_some.mp ((rep.entries _ _ at_table).trans table)).2
  have at_slot : tree.slot (root, .page i j) = some (frame * pageSize + entrySize * j) := by
    rw [slot_page, table]
    rfl
  simp only [Path.format] at base
  simp only [mapTestPage, base] at mapped
  obtain ⟨tree', rep', carries, _, absent, swaps⟩ := rep.map_page at_slot blank.1 mapped
  -- There is no swap file for the page, so reading it from disk would change nothing.
  have unsaved : kernel'.swap (frame * pageSize + entrySize * j) = none :=
    (swaps _ _ _ _ at_slot blank.1).trans (blank.2 _ at_slot)
  have unread : readPageFromDisk platform.tableEntry kernel' (frame * pageSize + entrySize * j) =
      kernel' := by
    rw [readPageFromDisk, unsaved]
  rw [unread] at rep' carries
  refine ⟨tree', rep', carries, fun j' different other => ?_⟩
  refine ⟨absent _ (by simp [different]) other.1, fun pte its => ?_⟩
  have its' : tree.slot (root, .page i j') = some pte := by
    rw [slot_page] at its ⊢
    rw [carries.tables _ _ _ table] at its
    rw [table]
    exact its
  exact (swaps _ _ _ _ its' other.1).trans (other.2 _ its')

/-- A frame that was asked for as a page directory is a root of its own, with nothing below. -/
theorem plant_spec (rep : Represents platform kernel tree) {pd : Nat}
    (asked : askKernelForFrame platform.tableEntry choice kernel none = some (pd, kernel')) :
    pd = choice.frame * pageSize ∧ tree (choice.frame, .directory) = none ∧
      ∃ tree', Represents platform kernel' tree' ∧ (∀ root, tree' (root, .directory) =
        if root = choice.frame then some choice.frame else tree (root, .directory)) ∧
      (∀ root i frame, tree (root, .table i) = some frame → tree' (root, .table i) = some frame) ∧
      tree' (choice.frame, .table i) = none ∧
      ∀ root i j offset, offset < pageSize → byteAt kernel' tree' (root, .page i j) offset =
        byteAt kernel tree (root, .page i j) offset := by
  obtain ⟨middle, room, small, free, rfl, rfl⟩ := askKernelForFrame_eq asked
  obtain ⟨between, made⟩ := makeRoom_spec rep room
  have rep' := made.represents
  -- The frame was unused, so no directory stood in it.
  have absent := rep'.root_absent free
  refine ⟨rfl, (made.directories _).symm.trans absent, _, rep'.planted free small, fun root => ?_,
    fun root i frame present => ?_, ?_, fun root i j offset inside => ?_⟩
  · rw [Function.update_apply, made.directories]
    by_cases same : root = choice.frame
    · rw [if_pos (by rw [same]), if_pos same]
    · rw [if_neg (by simp [same]), if_neg same]
  · rw [Function.update_of_ne (by simp), made.tables _ _ _ present]
  · rw [Function.update_of_ne (by simp), rep'.no_table_below absent]
  · exact (rep'.planted_bytes free inside).trans (made.bytes _ _ _ _ inside)

/-- The table and the two pages of a new process change no byte that a process can see. -/
theorem equip_spec {second third fourth : Kernel} (rep : Represents platform kernel tree)
    (planted : tree (root, .directory) = some root) (absent : tree (root, .table 0) = none)
    (table : mapFrame platform platform.directoryEntry choices.table kernel none
      (root * pageSize + entrySize * 0) = some second)
    (one : mapTestPage platform choices.first (root * pageSize + entrySize * 0) 1 second =
      some third)
    (two : mapTestPage platform choices.second (root * pageSize + entrySize * 0) 2 third =
      some fourth) :
    ∃ tree', Represents platform fourth tree' ∧ Carries kernel tree fourth tree' := by
  have at_table : tree.slot (root, .table 0) = some (root * pageSize + entrySize * 0) := by
    rw [slot_table, planted]
    rfl
  obtain ⟨tree₁, rep₁, carries₁, present₁, blank₁⟩ := rep.map_table at_table absent table
  -- The new table has no pages yet, in frames or on disk.
  have blank (j : Fin numEntries) : Blank second tree₁ (root, .page 0 j) := by
    have its : tree₁.slot (root, .page 0 j) =
        some (choices.table.frame * pageSize + entrySize * j) := by
      rw [slot_page, present₁]
      rfl
    refine ⟨(blank₁ j _ its).1, fun pte at_slot => ?_⟩
    exact (blank₁ j pte at_slot).2
  have planted₁ := (carries₁.directories root).trans planted
  obtain ⟨tree₂, rep₂, carries₂, blank₂⟩ :=
    @mapTestPage_spec _ _ _ _ _ _ 0 1 _ rep₁ planted₁ present₁ (blank 1) one
  -- Directory and table are still there when the second page is mapped.
  have planted₂ := (carries₂.directories root).trans planted₁
  have present₂ := carries₂.tables _ _ _ present₁
  obtain ⟨tree₃, rep₃, carries₃, _⟩ :=
    @mapTestPage_spec _ _ _ _ _ _ 0 2 _ rep₂ planted₂ present₂ (blank₂ 2 (by decide) (blank 2)) two
  exact ⟨tree₃, rep₃, (carries₁.trans carries₂).trans carries₃⟩

/-- What adding a process does: a root that was unused, with pages of zeros, and nothing else. -/
structure Added (platform : Platform) (st : State) (tree : Tree) (pid : Nat) (st' : State)
    (tree' : Tree) (root : Nat) : Prop where
  consistent : Consistent platform st' tree'
  bounded : pid < platform.maxProcessId
  new : tree (root, .directory) = none
  pageDirectories :
    st'.pageDirectories = Function.update st.pageDirectories pid (some (root * pageSize))
  directories : ∀ root', tree' (root', .directory) =
    if root' = root then some root else tree (root', .directory)
  bytes : ∀ root' i j offset, offset < pageSize →
    byteAt st'.kernel tree' (root', .page i j) offset =
      byteAt st.kernel tree (root', .page i j) offset

/-- A process may be added unless it is live and has entries in the cache. -/
theorem mmuAddProcess_spec (consistent : Consistent platform st tree)
    (careful : st.tlb ≠ [] → st.currPid = pid → st.pageDirectories pid = none)
    (added : mmuAddProcess platform choices st pid = some st') :
    ∃ tree' root, Added platform st tree pid st' tree' root := by
  rw [mmuAddProcess] at added
  split at added
  · rename_i bounded
    -- Four frames are asked for: the directory, the table, and the two pages.
    obtain ⟨⟨pd, first⟩, asked, rest⟩ := Option.bind_eq_some_iff.mp added
    obtain ⟨second, table, rest⟩ := Option.bind_eq_some_iff.mp rest
    obtain ⟨third, one, rest⟩ := Option.bind_eq_some_iff.mp rest
    obtain ⟨fourth, two, rest⟩ := Option.bind_eq_some_iff.mp rest
    obtain rfl := Option.some.inj rest
    obtain ⟨rfl, new, middle, rep, directories, tables, bare, bytes⟩ :=
      @plant_spec _ _ _ _ 0 _ consistent.represents _ asked
    have planted := (directories choices.directory.frame).trans (if_pos rfl)
    obtain ⟨tree', rep', carries⟩ := equip_spec rep planted bare table one two
    -- Only the new directory is a root that was not there before.
    have roots root' := (carries.directories root').trans (directories root')
    -- A directory that was in use is another root than the new one.
    have other {pid' pd : Nat} (used : st.pageDirectories pid' = some pd) :
        pd ≠ choices.directory.frame * pageSize := by
      obtain ⟨root', rfl, present⟩ := consistent.planted _ _ used
      intro same
      obtain rfl : root' = choices.directory.frame := by simp only [pageSize] at same; omega
      rw [new] at present
      cases present
    refine ⟨tree', choices.directory.frame, ⟨rep', fun pid' pd used => ?_,
      fun pid' pid'' pd used used' => ?_, fun base pte member => ?_⟩, bounded, new, rfl, roots,
      fun root' i j offset inside => (carries.bytes _ _ _ _ inside).trans (bytes _ _ _ _ inside)⟩
    · simp only [Function.update_apply] at used
      split at used
      · obtain rfl := Option.some.inj used
        exact ⟨_, rfl, (roots _).trans (if_pos rfl)⟩
      · obtain ⟨root', rfl, present⟩ := consistent.planted _ _ used
        have apart : root' ≠ choices.directory.frame := by
          intro same
          subst same
          exact other used rfl
        exact ⟨root', rfl, (roots root').trans ((if_neg apart).trans present)⟩
    · simp only [Function.update_apply] at used used'
      split at used <;> split at used'
      · rename_i one two
        exact one.trans two.symm
      · -- An old process does not have the new directory.
        exact absurd (Option.some.inj used).symm (other used')
      · exact absurd (Option.some.inj used').symm (other used)
      · exact consistent.unshared _ _ _ used used'
    · obtain ⟨root', virtualAddress, current, key, at_slot⟩ := consistent.cached _ _ member
      -- A cached pair belongs to a live process, which is not the one that is added.
      have apart : st.currPid ≠ pid := by
        intro same
        rw [same, careful (List.ne_nil_of_mem member) same] at current
        cases current
      obtain ⟨frame, table, rfl⟩ := Option.map_eq_some_iff.mp (slot_page.symm.trans at_slot)
      refine ⟨root', virtualAddress, (Function.update_of_ne apart _ _).trans current, key, ?_⟩
      rw [pageOf, slot_page, carries.tables _ _ _ (tables _ _ _ table)]
      rfl
  · cases added

end SystemProgramming.Mmu
