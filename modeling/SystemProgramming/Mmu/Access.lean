import SystemProgramming.Mmu.Faults

/-! Accesses: the entry of a virtual address, the page behind it, and the copy. -/

namespace SystemProgramming.Mmu

open Foundations

/-- The page table of a virtual address. -/
def tableOf (address : Nat) : Path := .table (Fin.ofNat numEntries (address / 2 ^ 22))

/-- The page of a virtual address. -/
def pageOf (address : Nat) : Path :=
  .page (Fin.ofNat numEntries (address / 2 ^ 22)) (Fin.ofNat numEntries (address / 2 ^ 12))

theorem addrPage_toNat (virtualAddress : UInt32) :
    (addrPage virtualAddress).toNat = virtualAddress.toNat / 2 ^ 22 := by
  simp [addrPage, UInt32.toNat_shiftRight, Nat.shiftRight_eq_div_pow]

theorem addrIdx_toNat (virtualAddress : UInt32) :
    (addrIdx virtualAddress).toNat = virtualAddress.toNat / 2 ^ 12 % 2 ^ 10 := by
  have mask := Nat.and_two_pow_sub_one_eq_mod (virtualAddress.toNat / 2 ^ 12) 10
  simpa [addrIdx, UInt32.toNat_shiftRight, Nat.shiftRight_eq_div_pow] using mask

theorem addrOffset_toNat (virtualAddress : UInt32) :
    (addrOffset virtualAddress).toNat = virtualAddress.toNat % pageSize := by
  have mask := Nat.and_two_pow_sub_one_eq_mod virtualAddress.toNat 12
  simpa [addrOffset] using mask

/-- The page base of an address lies in the page of the address. -/
theorem addrBase_toNat (virtualAddress : UInt32) :
    (addrBase virtualAddress).toNat / 2 ^ 12 = virtualAddress.toNat / 2 ^ 12 := by
  -- Clearing the low twelve bits does not touch the quotient by a page.
  have mask := Nat.and_two_pow_sub_one_eq_mod (virtualAddress.toNat / 2 ^ 12) 20
  have small := virtualAddress.toNat_lt
  rw [Nat.mod_eq_of_lt (by omega)] at mask
  rw [addrBase, UInt32.toNat_and, ← Nat.shiftRight_eq_div_pow, Nat.shiftRight_and_distrib,
    Nat.shiftRight_eq_div_pow]
  exact mask

/-- Addresses in one page have one place. -/
theorem pageOf_congr {address other : Nat} (same : address / 2 ^ 12 = other / 2 ^ 12) :
    pageOf address = pageOf other := by
  have tables : address / 2 ^ 22 = other / 2 ^ 22 := by omega
  rw [pageOf, pageOf, same, tables]

/-- Below the end of the address space, one place means one page. -/
theorem page_of_pageOf {address other : Nat} (small : address < 2 ^ 32) (small' : other < 2 ^ 32)
    (same : pageOf address = pageOf other) : address / 2 ^ 12 = other / 2 ^ 12 := by
  -- Both indices have ten bits, and together they are the page number.
  simp only [pageOf, Path.page.injEq, Fin.ext_iff, Fin.val_ofNat, numEntries] at same
  omega

/-- The page base that the cache uses as its key determines the page. -/
theorem pageOf_of_addrBase {virtualAddress other : UInt32}
    (same : addrBase virtualAddress = addrBase other) :
    pageOf virtualAddress.toNat = pageOf other.toNat := by
  refine pageOf_congr ?_
  rw [← addrBase_toNat, same, addrBase_toNat]

variable {platform : Platform} {st st' : State} {kernel kernel' : Kernel} {tree tree' : Tree}
  {frame root pid pte pde : Nat} {choices : AccessChoices} {virtualAddress : UInt32}

/-- The entry of a table, where the unit computes it. -/
theorem slot_tableOf (present : tree (root, .directory) = some frame) :
    tree.slot (root, tableOf virtualAddress.toNat) =
      some (frame * pageSize + entrySize * (addrPage virtualAddress).toNat) := by
  have small := virtualAddress.toNat_lt
  -- A 32-bit address leaves ten bits for the directory, so there is no wrap.
  have index : virtualAddress.toNat / 2 ^ 22 % numEntries = virtualAddress.toNat / 2 ^ 22 :=
    Nat.mod_eq_of_lt (by simp only [numEntries]; omega)
  rw [tableOf, slot_table, present, addrPage_toNat, Option.map_some, Fin.val_ofNat, index]

/-- The entry of a page, where the unit computes it. -/
theorem slot_pageOf (present : tree (root, tableOf virtualAddress.toNat) = some frame) :
    tree.slot (root, pageOf virtualAddress.toNat) =
      some (frame * pageSize + entrySize * (addrIdx virtualAddress).toNat) := by
  rw [tableOf] at present
  rw [pageOf, slot_page, present, addrIdx_toNat]
  rfl

/--
The unit and a tree agree: every page directory in use is a root of its own, and every cached pair
denotes the entry of its page below the directory of the current process.
-/
structure Consistent (platform : Platform) (st : State) (tree : Tree) : Prop where
  represents : Represents platform st.kernel tree
  planted : ∀ pid pd, st.pageDirectories pid = some pd →
    ∃ root, pd = root * pageSize ∧ tree (root, .directory) = some root
  unshared : ∀ pid pid' pd, st.pageDirectories pid = some pd → st.pageDirectories pid' = some pd →
    pid = pid'
  cached : ∀ base pte, (base, pte) ∈ st.tlb → ∃ root virtualAddress,
    st.pageDirectories st.currPid = some (root * pageSize) ∧ addrBase virtualAddress = base ∧
      tree.slot (root, pageOf virtualAddress.toNat) = some pte

/-- A step that keeps the address spaces and does not change which processes there are. -/
structure Keeps (st : State) (tree : Tree) (st' : State) (tree' : Tree) : Prop where
  carries : Carries st.kernel tree st'.kernel tree'
  pageDirectories : st'.pageDirectories = st.pageDirectories
  segmentations : st'.segmentations = st.segmentations
  currPid : st'.currPid = st.currPid

theorem Keeps.trans {st'' : State} {tree'' : Tree} (first : Keeps st tree st' tree')
    (second : Keeps st' tree' st'' tree'') : Keeps st tree st'' tree'' where
  carries := first.carries.trans second.carries
  pageDirectories := second.pageDirectories.trans first.pageDirectories
  segmentations := second.segmentations.trans first.segmentations
  currPid := second.currPid.trans first.currPid

/-- The entries of pages stay where they are. -/
theorem Carries.slot {i j : Fin numEntries} (carries : Carries kernel tree kernel' tree')
    (at_slot : tree.slot (root, .page i j) = some pte) :
    tree'.slot (root, .page i j) = some pte := by
  -- The table stays in its frame, so the entry stays at its address.
  rw [slot_page] at at_slot ⊢
  obtain ⟨frame, present, rfl⟩ := Option.map_eq_some_iff.mp at_slot
  rw [carries.tables _ _ _ present]
  rfl

namespace Consistent

/-- Consistency survives every step that keeps the address spaces and adds nothing to the cache. -/
theorem keep (consistent : Consistent platform st tree)
    (rep : Represents platform st'.kernel tree') (keeps : Keeps st tree st' tree')
    (cache : ∀ pair ∈ st'.tlb, pair ∈ st.tlb) : Consistent platform st' tree' where
  represents := rep
  planted pid pd used := by
    rw [keeps.pageDirectories] at used
    obtain ⟨root, at_root, present⟩ := consistent.planted pid pd used
    exact ⟨root, at_root, (keeps.carries.directories root).trans present⟩
  unshared pid pid' pd one two := by
    rw [keeps.pageDirectories] at one two
    exact consistent.unshared pid pid' pd one two
  cached base pte member := by
    obtain ⟨root, virtualAddress, current, key, at_slot⟩ := consistent.cached _ _ (cache _ member)
    rw [keeps.pageDirectories, keeps.currPid]
    exact ⟨root, virtualAddress, current, key, keeps.carries.slot at_slot⟩

/-- The cache may take the entry of a page of the current process. -/
theorem cache (consistent : Consistent platform st tree)
    (current : st.pageDirectories st.currPid = some (root * pageSize))
    (at_slot : tree.slot (root, pageOf virtualAddress.toNat) = some pte) :
    Consistent platform (tlbAddPte st (addrBase virtualAddress) pte) tree where
  represents := consistent.represents
  planted := consistent.planted
  unshared := consistent.unshared
  cached base entry member := by
    -- Only the newest pair is new, and it is the entry of its page by assumption.
    rcases List.mem_cons.mp member with new | old
    · obtain ⟨rfl, rfl⟩ := Prod.mk.inj new
      exact ⟨root, virtualAddress, current, rfl, at_slot⟩
    · exact consistent.cached _ _ old

/-- The cache is empty after a switch to another process, and fits the current process as before. -/
theorem switchTo_consistent (consistent : Consistent platform st tree) (pid : Nat) :
    Consistent platform (switchTo st pid) tree := by
  rw [switchTo]
  split
  · -- The flushed cache has nothing to check.
    exact ⟨consistent.represents, consistent.planted, consistent.unshared,
      fun _ _ member => absurd member List.not_mem_nil⟩
  · exact consistent

end Consistent

@[simp] theorem switchTo_kernel : (switchTo st pid).kernel = st.kernel := by
  rw [switchTo]
  split <;> rfl

@[simp] theorem switchTo_pageDirectories :
    (switchTo st pid).pageDirectories = st.pageDirectories := by
  rw [switchTo]
  split <;> rfl

@[simp] theorem switchTo_segmentations : (switchTo st pid).segmentations = st.segmentations := by
  rw [switchTo]
  split <;> rfl

@[simp] theorem switchTo_currPid : (switchTo st pid).currPid = pid := by
  rw [switchTo]
  split
  · rfl
  · rename_i same
    exact not_not.mp same

/-- A page table is there afterwards, whether it was before or not. -/
theorem ensureTable_spec (rep : Represents platform st.kernel tree) {i : Fin numEntries}
    (at_slot : tree.slot (root, .table i) = some pde) {choice : Choice}
    (ensured : ensureTable platform choice st pde = some st') :
    ∃ tree' kernel' faults, st' = { st with kernel := kernel', numPageFaults := faults } ∧
      Represents platform kernel' tree' ∧ Carries st.kernel tree kernel' tree' ∧
      ∃ frame, tree' (root, .table i) = some frame := by
  have target := rep.entries _ _ at_slot
  simp only [Path.format] at target
  rw [ensureTable] at ensured
  split at ensured
  · -- The table is there, so nothing happens.
    rename_i present
    obtain rfl := Option.some.inj ensured
    rw [EntryFormat.target_eq_some.mpr ⟨present, rfl⟩] at target
    exact ⟨tree, _, _, rfl, rep, .refl, _, target.symm⟩
  · -- The entry points nowhere, so the tree has no table there and gets one.
    rename_i absent
    rw [EntryFormat.target_of_absent absent] at target
    obtain ⟨kernel', mapped, rest⟩ := Option.bind_eq_some_iff.mp ensured
    obtain rfl := Option.some.inj rest
    obtain ⟨tree', rep', carries, present, _⟩ := rep.map_table at_slot target.symm mapped
    exact ⟨tree', kernel', _, rfl, rep', carries, _, present⟩

/-- A page is in a frame afterwards, with the bytes that it had. -/
theorem ensurePage_spec (rep : Represents platform st.kernel tree) {i j : Fin numEntries}
    (at_slot : tree.slot (root, .page i j) = some pte) {choice : Choice}
    (ensured : ensurePage platform choice st pte = some st') :
    ∃ tree' kernel' faults, st' = { st with kernel := kernel', numPageFaults := faults } ∧
      Represents platform kernel' tree' ∧ Carries st.kernel tree kernel' tree' ∧
      ∃ frame, tree' (root, .page i j) = some frame := by
  have target := rep.entries _ _ at_slot
  simp only [Path.format] at target
  rw [ensurePage] at ensured
  split at ensured
  · -- The page is in a frame, so nothing happens.
    rename_i present
    obtain rfl := Option.some.inj ensured
    rw [EntryFormat.target_eq_some.mpr ⟨present, rfl⟩] at target
    exact ⟨tree, _, _, rfl, rep, .refl, _, target.symm⟩
  · -- A page fault: the page gets a frame and its saved bytes.
    rename_i absent
    rw [EntryFormat.target_of_absent absent] at target
    obtain ⟨kernel', mapped, rest⟩ := Option.bind_eq_some_iff.mp ensured
    obtain rfl := Option.some.inj rest
    obtain ⟨tree', rep', carries, present, _⟩ := rep.map_page at_slot target.symm mapped
    exact ⟨tree', _, _, rfl, rep', carries, _, present⟩

/-- The cache only has what was added to it. -/
theorem tlbGetPte_mem {hit : Bool} {base : UInt32} (cached : tlbGetPte hit st base = some pte) :
    (base, pte) ∈ st.tlb := by
  rw [tlbGetPte] at cached
  split at cached
  · -- The lookup finds a pair of the cache.
    obtain ⟨newer, older, split, _⟩ := List.lookup_eq_some_iff.mp cached
    rw [split]
    exact List.mem_append_right _ List.mem_cons_self
  · cases cached

/-- From the cache or through the directory, the entry found is the one of the current process. -/
theorem findPte_spec (consistent : Consistent platform st tree) (running : st.currPid = pid)
    (found : findPte platform choices st virtualAddress pid = some (pte, st')) :
    ∃ tree' root, Consistent platform st' tree' ∧ Keeps st tree st' tree' ∧
      st.pageDirectories pid = some (root * pageSize) ∧
      tree'.slot (root, pageOf virtualAddress.toNat) = some pte := by
  subst running
  rw [findPte] at found
  split at found
  · -- A cached pair was added for the same page base, hence for the same page.
    rename_i pte' hit
    obtain ⟨rfl, rfl⟩ := Prod.mk.inj (Option.some.inj found)
    obtain ⟨root, other, current, key, at_slot⟩ := consistent.cached _ _ (tlbGetPte_mem hit)
    rw [pageOf_of_addrBase key] at at_slot
    exact ⟨tree, root, consistent, ⟨.refl, rfl, rfl, rfl⟩, current, at_slot⟩
  · -- A miss walks through the directory of the process.
    obtain ⟨pd, current, rest⟩ := Option.bind_eq_some_iff.mp found
    obtain ⟨middle, ensured, rest⟩ := Option.bind_eq_some_iff.mp rest
    obtain ⟨root, rfl, planted⟩ := consistent.planted _ _ current
    have represents : Represents platform (mmuTlbMiss st).kernel tree := consistent.represents
    obtain ⟨tree', kernel', faults, rfl, rep, carries, frame, present⟩ :=
      ensureTable_spec represents (slot_tableOf planted) ensured
    -- The entry of the table now points to the frame of the table, and the page has its entry there.
    have planted' := (carries.directories root).trans planted
    have target := (rep.entries _ _ (slot_tableOf planted')).trans present
    have base := (EntryFormat.target_eq_some.mp target).2
    simp only [Path.format] at base
    obtain ⟨rfl, rfl⟩ := Prod.mk.inj (Option.some.inj rest)
    have at_slot := slot_pageOf present
    rw [← base] at at_slot
    have kept : Consistent platform
        { mmuTlbMiss st with kernel := kernel', numPageFaults := faults } tree' :=
      consistent.keep rep ⟨carries, rfl, rfl, rfl⟩ fun _ member => member
    exact ⟨tree', root, kept.cache current at_slot, ⟨carries, rfl, rfl, rfl⟩, current, at_slot⟩

/-- The physical address of a virtual address lies at its offset in the frame of its page. -/
theorem addrPhysical_eq (rep : Represents platform kernel tree)
    (at_slot : tree.slot (root, pageOf virtualAddress.toNat) = some pte)
    (present : tree (root, pageOf virtualAddress.toNat) = some frame) :
    addrPhysical platform kernel virtualAddress pte =
      frame * pageSize + virtualAddress.toNat % pageSize := by
  have base := (EntryFormat.target_eq_some.mp ((rep.entries _ _ at_slot).trans present)).2
  have inside : virtualAddress.toNat % pageSize < 2 ^ 12 := Nat.mod_lt _ (by decide)
  simp only [Path.format, pageOf] at base
  -- The offset fills the twelve bits that the shifted frame number leaves free.
  rw [addrPhysical, addrOffset_toNat, base, Nat.or_comm, ← Nat.shiftLeft_add_eq_or_of_lt inside,
    Nat.shiftLeft_eq]

/--
An access faults, or copies at the physical address of its page; up to the copy it keeps every
byte of every address space.
-/
inductive Accessed (platform : Platform) (st : State) (tree : Tree) (virtualAddress : UInt32)
    (pid numBytes : Nat) (copy : Kernel → Nat → Nat → List UInt8 × Kernel) :
    Outcome → State → Prop
  | fault {st' : State} {tree' : Tree} :
      Consistent platform st' tree' → Keeps (switchTo st pid) tree st' tree' →
      Accessed platform st tree virtualAddress pid numBytes copy .fault st'
  | done {middle : State} {tree' : Tree} {root pte frame : Nat} :
      Consistent platform middle tree' → Keeps (switchTo st pid) tree middle tree' →
      st.pageDirectories pid = some (root * pageSize) →
      tree'.slot (root, pageOf virtualAddress.toNat) = some pte →
      tree' (root, pageOf virtualAddress.toNat) = some frame →
      numBytes + virtualAddress.toNat % pageSize ≤ pageSize →
      Accessed platform st tree virtualAddress pid numBytes copy
        (.done (copy middle.kernel pte (frame * pageSize + virtualAddress.toNat % pageSize)).1)
        { middle with
          kernel :=
            (copy middle.kernel pte (frame * pageSize + virtualAddress.toNat % pageSize)).2 }

/-- Both faults are taken before the copy, and neither changes what any process sees. -/
theorem access_spec {numBytes : Nat} {permitted : Segment → Bool}
    {copy : Kernel → Nat → Nat → List UInt8 × Kernel} {outcome : Outcome}
    (consistent : Consistent platform st tree)
    (accessed : access platform choices st virtualAddress pid numBytes permitted copy =
      some (outcome, st')) :
    Accessed platform st tree virtualAddress pid numBytes copy outcome st' := by
  have switched := consistent.switchTo_consistent pid
  rw [access] at accessed
  split at accessed
  · rename_i asserted
    obtain ⟨segmentations, _, rest⟩ := Option.bind_eq_some_iff.mp accessed
    split at rest
    · obtain ⟨rfl, rfl⟩ := Prod.mk.inj (Option.some.inj rest)
      -- The address has no segment; only the switch happened.
      exact .fault (switched.keep switched.represents ⟨.refl, rfl, rfl, rfl⟩ fun _ member => member)
        ⟨.refl, rfl, rfl, rfl⟩
    · obtain ⟨⟨pte, found⟩, finding, rest⟩ := Option.bind_eq_some_iff.mp rest
      obtain ⟨middle, ensured, rest⟩ := Option.bind_eq_some_iff.mp rest
      obtain ⟨newSegment, _, rest⟩ := Option.bind_eq_some_iff.mp rest
      -- First the entry is found, perhaps with a new table, and then the page is brought in.
      obtain ⟨between, root, consistent', keeps, at_root, at_slot⟩ :=
        findPte_spec switched switchTo_currPid finding
      obtain ⟨tree', kernel', faults, rfl, rep, carries, frame, present⟩ :=
        ensurePage_spec consistent'.represents at_slot ensured
      have ended : Consistent platform
          { found with kernel := kernel', numPageFaults := faults } tree' :=
        consistent'.keep rep ⟨carries, rfl, rfl, rfl⟩ fun _ member => member
      have kept : Keeps (switchTo st pid) tree
          { found with kernel := kernel', numPageFaults := faults } tree' :=
        keeps.trans ⟨carries, rfl, rfl, rfl⟩
      split at rest
      · -- The segment forbids the access, after the page was brought in.
        obtain ⟨rfl, rfl⟩ := Prod.mk.inj (Option.some.inj rest)
        exact .fault (ended.keep rep ⟨.refl, rfl, rfl, rfl⟩ fun _ member => member)
          (kept.trans ⟨.refl, rfl, rfl, rfl⟩)
      · -- The copy runs at the physical address of the page, which is present now.
        have at_slot' := carries.slot at_slot
        rw [switchTo_pageDirectories] at at_root
        have physical := addrPhysical_eq rep at_slot' present
        obtain ⟨rfl, rfl⟩ := Prod.mk.inj (Option.some.inj rest)
        simp only [physical]
        exact .done ended kept at_root at_slot' present asserted.2
  · cases accessed

/-- Bytes of one page that are read together have consecutive virtual addresses. -/
theorem readBytes_eq (present : tree (root, pageOf virtualAddress.toNat) = some frame) {numBytes : Nat}
    (inside : numBytes + virtualAddress.toNat % pageSize ≤ pageSize) :
    kernel.mem.readBytes (frame * pageSize + virtualAddress.toNat % pageSize) numBytes =
      (List.range numBytes).map fun offset =>
        byteAt kernel tree (root, pageOf (virtualAddress.toNat + offset))
          ((virtualAddress.toNat + offset) % pageSize) := by
  refine List.map_congr_left fun offset member => ?_
  have below := List.mem_range.mp member
  simp only [pageSize] at inside ⊢
  -- The piece does not cross a page, so all its addresses are in one page.
  have same : pageOf (virtualAddress.toNat + offset) = pageOf virtualAddress.toNat :=
    pageOf_congr (by omega)
  have place : (virtualAddress.toNat + offset) % 4096 = virtualAddress.toNat % 4096 + offset := by
    omega
  rw [same, byteAt, present, Option.elim_some, place, Nat.add_assoc]

/-- A read that copies out returns what the process sees, and changes no byte. -/
theorem read_spec {numBytes : Nat} {outcome : Outcome}
    (accessed : Accessed platform st tree virtualAddress pid numBytes (copyOut platform numBytes)
      outcome st') :
    ∃ tree', Consistent platform st' tree' ∧ Keeps (switchTo st pid) tree st' tree' ∧
      ∀ bytes, outcome = .done bytes → ∃ root, st.pageDirectories pid = some (root * pageSize) ∧
        numBytes + virtualAddress.toNat % pageSize ≤ pageSize ∧
        bytes = (List.range numBytes).map fun offset =>
          byteAt st.kernel tree (root, pageOf (virtualAddress.toNat + offset))
            ((virtualAddress.toNat + offset) % pageSize) := by
  cases accessed with
  | fault consistent keeps =>
    refine ⟨_, consistent, keeps, fun bytes faulted => ?_⟩
    cases faulted
  | @done middle tree' root pte frame consistent keeps at_root at_slot present inside =>
    have rep := consistent.represents
    -- A read only marks the entry, and marking changes no byte.
    have marking : Keeps middle tree' { middle with kernel := markEntry platform middle.kernel pte false }
        tree' :=
      ⟨⟨fun _ => rfl, fun _ _ _ found => found, fun _ _ _ _ low => rep.marked_bytes at_slot low⟩,
        rfl, rfl, rfl⟩
    refine ⟨tree', consistent.keep (rep.marked at_slot) marking fun _ member => member,
      keeps.trans marking, fun bytes copied => ⟨root, at_root, inside, ?_⟩⟩
    rw [← Outcome.done.inj copied]
    refine (readBytes_eq present inside).trans (List.map_congr_left fun offset _ => ?_)
    -- The bytes copied out are those from before the access, by the first half of the walk.
    have kept := keeps.carries.bytes root
      (Fin.ofNat numEntries ((virtualAddress.toNat + offset) / 2 ^ 22))
      (Fin.ofNat numEntries ((virtualAddress.toNat + offset) / 2 ^ 12))
      ((virtualAddress.toNat + offset) % pageSize) (Nat.mod_lt _ (by decide))
    rw [switchTo_kernel] at kept
    exact kept

/-- A write that copies in puts the buffer into one page of its process and keeps every other byte. -/
theorem write_spec {buffer : List UInt8} {outcome : Outcome}
    (accessed : Accessed platform st tree virtualAddress pid buffer.length (copyIn platform buffer)
      outcome st') :
    ∃ tree', Consistent platform st' tree' ∧ st'.pageDirectories = st.pageDirectories ∧
      st'.currPid = pid ∧ (∀ root, tree' (root, .directory) = tree (root, .directory)) ∧
      (outcome = .fault → Carries st.kernel tree st'.kernel tree') ∧
      (outcome ≠ .fault → ∃ root, st.pageDirectories pid = some (root * pageSize) ∧
        buffer.length + virtualAddress.toNat % pageSize ≤ pageSize ∧
        ∀ root' i j offset, offset < pageSize →
          byteAt st'.kernel tree' (root', .page i j) offset =
            if (root', Path.page i j) = (root, pageOf virtualAddress.toNat) ∧
                virtualAddress.toNat % pageSize ≤ offset ∧
                offset < virtualAddress.toNat % pageSize + buffer.length then
              buffer.getD (offset - virtualAddress.toNat % pageSize) 0
            else byteAt st.kernel tree (root', .page i j) offset) := by
  cases accessed with
  | @fault _ tree' consistent keeps =>
    have carries := keeps.carries
    rw [switchTo_kernel] at carries
    exact ⟨tree', consistent, keeps.pageDirectories.trans switchTo_pageDirectories,
      keeps.currPid.trans switchTo_currPid, carries.directories, fun _ => carries,
      fun copied => absurd rfl copied⟩
  | @done middle tree' root pte frame consistent keeps at_root at_slot present inside =>
    have rep := consistent.represents
    have lower := Nat.le_add_right (frame * pageSize) (virtualAddress.toNat % pageSize)
    -- The piece stays in its page, by the assertion of the access.
    have upper : frame * pageSize + virtualAddress.toNat % pageSize + buffer.length ≤
        (frame + 1) * pageSize := by
      rw [Nat.add_one_mul, Nat.add_assoc]
      exact Nat.add_le_add_left (Nat.add_comm _ _ ▸ inside) _
    have written := rep.written present lower upper
    have carries := keeps.carries
    rw [switchTo_kernel] at carries
    refine ⟨tree', ⟨written.marked at_slot, consistent.planted, consistent.unshared,
      consistent.cached⟩, keeps.pageDirectories.trans switchTo_pageDirectories,
      keeps.currPid.trans switchTo_currPid, carries.directories, fun faulted => ?_, fun _ =>
      ⟨root, at_root, inside, fun root' i j offset low => ?_⟩⟩
    · cases faulted
    · refine (written.marked_bytes at_slot low).trans ?_
      by_cases same : (root', Path.page i j) = (root, pageOf virtualAddress.toNat)
      · -- In the page of the write the buffer is seen, and the rest as before.
        rw [← carries.bytes _ _ _ _ low, same, Represents.written_self present]
        simp only [true_and]
      · -- Every other page is in another frame, or in none.
        rw [rep.written_bytes present lower upper same low, carries.bytes _ _ _ _ low,
          if_neg fun both => same both.1]

end SystemProgramming.Mmu
