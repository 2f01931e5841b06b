import SystemProgramming.Mmu.FlatMemory

/-! What an access that ends in a segmentation fault has changed by then. -/

namespace SystemProgramming.Mmu

open Foundations

/-- What a faulting access may change: the count of faults, and what a context switch changes. -/
structure NoEffect (st : State) (pid : Nat) (st' : State) : Prop where
  kernel : st'.kernel = st.kernel
  currPid : st'.currPid = pid
  tlb : st'.tlb = (switchTo st pid).tlb
  pageDirectories : st'.pageDirectories = st.pageDirectories
  segmentations : st'.segmentations = st.segmentations
  numTlbMisses : st'.numTlbMisses = st.numTlbMisses
  numPageFaults : st'.numPageFaults = st.numPageFaults

/-- The fault comes early: no segment has the address, or the cache has the page and it is present. -/
def FaultsEarly (platform : Platform) (choices : AccessChoices) (st : State)
    (virtualAddress : UInt32) (pid : Nat) : Prop :=
  (∀ segmentations, st.segmentations pid = some segmentations →
    platform.addressInSegmentations segmentations virtualAddress = false) ∨
  st.currPid = pid ∧ ∃ pte, tlbGetPte choices.hit st (addrBase virtualAddress) = some pte ∧
    (platform.tableEntry.read st.kernel.mem pte).present = true

variable {platform : Platform} {st st' : State} {pid pte pde : Nat} {choices : AccessChoices}
  {choice : Choice} {virtualAddress : UInt32} {memory : Memory}
  {trace : List (Transition State Action)} {final : State} {taken : Transition State Action}

@[simp] theorem switchTo_numTlbMisses : (switchTo st pid).numTlbMisses = st.numTlbMisses := by
  rw [switchTo]
  split <;> rfl

@[simp] theorem switchTo_numPageFaults : (switchTo st pid).numPageFaults = st.numPageFaults := by
  rw [switchTo]
  split <;> rfl

/-- Raising the fault behind a switch has no other effect. -/
theorem NoEffect.raised : NoEffect st pid (mmuRaiseSegmentationFault (switchTo st pid)) where
  kernel := switchTo_kernel
  currPid := switchTo_currPid
  tlb := rfl
  pageDirectories := switchTo_pageDirectories
  segmentations := switchTo_segmentations
  numTlbMisses := switchTo_numTlbMisses
  numPageFaults := switchTo_numPageFaults

/-- A table that is missing costs a page fault. -/
theorem ensureTable_counts (ensured : ensureTable platform choice st pde = some st') :
    st'.numTlbMisses = st.numTlbMisses := by
  rw [ensureTable] at ensured
  split at ensured
  · rw [← Option.some.inj ensured]
  · obtain ⟨kernel, _, rest⟩ := Option.bind_eq_some_iff.mp ensured
    rw [← Option.some.inj rest]
    rfl

/-- A hit changes nothing, and a miss is counted. -/
theorem findPte_counts (found : findPte platform choices st virtualAddress pid = some (pte, st')) :
    tlbGetPte choices.hit st (addrBase virtualAddress) = some pte ∧ st' = st ∨
      tlbGetPte choices.hit st (addrBase virtualAddress) = none ∧
        st'.numTlbMisses = st.numTlbMisses + 1 := by
  rw [findPte] at found
  split at found
  · rename_i cached hit
    obtain ⟨rfl, rfl⟩ := Prod.mk.inj (Option.some.inj found)
    exact .inl ⟨hit, rfl⟩
  · rename_i missed
    obtain ⟨directory, _, rest⟩ := Option.bind_eq_some_iff.mp found
    obtain ⟨middle, ensured, rest⟩ := Option.bind_eq_some_iff.mp rest
    obtain ⟨_, rfl⟩ := Prod.mk.inj (Option.some.inj rest)
    exact .inr ⟨missed, ensureTable_counts ensured⟩

/-- A page that is present stays as it is, and any other page costs a page fault. -/
theorem ensurePage_counts (ensured : ensurePage platform choice st pte = some st') :
    st'.numTlbMisses = st.numTlbMisses ∧
      ((platform.tableEntry.read st.kernel.mem pte).present = true ∧ st' = st ∨
        ¬ (platform.tableEntry.read st.kernel.mem pte).present = true ∧
          st'.numPageFaults = st.numPageFaults + 1) := by
  rw [ensurePage] at ensured
  split at ensured
  · rename_i present
    rw [← Option.some.inj ensured]
    exact ⟨rfl, .inl ⟨present, rfl⟩⟩
  · rename_i absent
    obtain ⟨kernel, _, rest⟩ := Option.bind_eq_some_iff.mp ensured
    rw [← Option.some.inj rest]
    exact ⟨rfl, .inr ⟨absent, rfl⟩⟩

/-- The two places where an access faults. -/
theorem access_fault {numBytes : Nat} {permitted : Segment → Bool}
    {copy : Kernel → Nat → Nat → List UInt8 × Kernel}
    (faulted : access platform choices st virtualAddress pid numBytes permitted copy =
      some (.fault, st')) :
    ∃ segmentations, st.segmentations pid = some segmentations ∧
      (platform.addressInSegmentations segmentations virtualAddress = false ∧
        st' = mmuRaiseSegmentationFault (switchTo st pid) ∨
      platform.addressInSegmentations segmentations virtualAddress = true ∧
        ∃ pte found middle,
          findPte platform choices (switchTo st pid) virtualAddress pid = some (pte, found) ∧
          ensurePage platform choices.page found pte = some middle ∧
          st' = mmuRaiseSegmentationFault middle) := by
  rw [access] at faulted
  split at faulted
  · obtain ⟨segmentations, known, rest⟩ := Option.bind_eq_some_iff.mp faulted
    rw [switchTo_segmentations] at known
    refine ⟨segmentations, known, ?_⟩
    split at rest
    · rename_i outside
      obtain ⟨_, rfl⟩ := Prod.mk.inj (Option.some.inj rest)
      exact .inl ⟨outside, rfl⟩
    · rename_i inside
      obtain ⟨⟨pte, found⟩, finding, rest⟩ := Option.bind_eq_some_iff.mp rest
      obtain ⟨middle, ensured, rest⟩ := Option.bind_eq_some_iff.mp rest
      obtain ⟨newSegment, _, rest⟩ := Option.bind_eq_some_iff.mp rest
      refine .inr ⟨Bool.eq_true_of_not_eq_false inside, pte, found, middle, finding, ensured, ?_⟩
      split at rest
      · obtain ⟨_, rfl⟩ := Prod.mk.inj (Option.some.inj rest)
        rfl
      · -- An access that copies does not fault.
        cases Option.some.inj rest
  · cases faulted

/-- A faulting access is without effect exactly when its fault comes early. -/
theorem access_fault_iff {numBytes : Nat} {permitted : Segment → Bool}
    {copy : Kernel → Nat → Nat → List UInt8 × Kernel}
    (faulted : access platform choices st virtualAddress pid numBytes permitted copy =
      some (.fault, st')) :
    NoEffect st pid st' ↔ FaultsEarly platform choices st virtualAddress pid := by
  obtain ⟨segmentations, known, ⟨outside, rfl⟩ | ⟨inside, pte, found, middle, finding, ensured, rfl⟩⟩ :=
    access_fault faulted
  · -- The first test is made before anything else.
    apply iff_of_true .raised
    left
    intro other same
    rw [known] at same
    rw [← Option.some.inj same]
    exact outside
  · obtain ⟨misses, pages⟩ := ensurePage_counts ensured
    constructor
    · intro harmless
      -- Neither a miss nor a page fault was counted.
      have noMiss : middle.numTlbMisses = st.numTlbMisses := harmless.numTlbMisses
      have noFault : middle.numPageFaults = st.numPageFaults := harmless.numPageFaults
      obtain ⟨hit, rfl⟩ | ⟨_, counted⟩ := findPte_counts finding
      · obtain ⟨present, rfl⟩ | ⟨_, counted⟩ := pages
        · right
          rw [switchTo_kernel] at present
          by_cases same : st.currPid = pid
          · rw [switchTo, if_neg (not_not.mpr same)] at hit
            exact ⟨same, pte, hit, present⟩
          · -- The flush leaves nothing to hit.
            rw [switchTo, if_pos same, tlbGetPte] at hit
            split at hit
            · cases hit
            · cases hit
        · rw [switchTo_numPageFaults] at counted
          omega
      · rw [switchTo_numTlbMisses] at counted
        omega
    · rintro (nowhere | ⟨same, cached, hit, present⟩)
      · rw [nowhere segmentations known] at inside
        cases inside
      · have stays : switchTo st pid = st := by rw [switchTo, if_neg (not_not.mpr same)]
        rw [stays] at finding
        obtain ⟨again, rfl⟩ | ⟨missed, _⟩ := findPte_counts finding
        · obtain rfl := Option.some.inj (hit.symm.trans again)
          obtain ⟨_, rfl⟩ | ⟨absent, _⟩ := pages
          · have raised := @NoEffect.raised middle pid
            rw [stays] at raised
            exact raised
          · exact absurd present absent
        · rw [hit] at missed
          cases missed

/--
In every run, a read or write that faults is without effect exactly when its fault comes early.
-/
theorem segmentation_fault_iff (run : Run (Step platform) (mmuCreate memory) trace final)
    (member : taken ∈ trace)
    (faulted : (∃ numBytes, taken.action = ⟨.read choices virtualAddress pid numBytes, .fault⟩) ∨
      ∃ buffer, taken.action = ⟨.write choices virtualAddress pid buffer, .fault⟩) :
    NoEffect taken.before pid taken.after ↔
      FaultsEarly platform choices taken.before virtualAddress pid := by
  obtain ⟨step, _⟩ := run.split_at member
  obtain ⟨numBytes, called⟩ | ⟨buffer, called⟩ := faulted
  · rw [called] at step
    exact access_fault_iff step.executed
  · rw [called] at step
    exact access_fault_iff step.executed

/-- A write through the null pointer, which lies in no segment. -/
def sampleNull : Event := .write ⟨true, ⟨none, 0⟩, ⟨none, 0⟩⟩ 0 1 [104, 105]

/-- The null pointer is refused before anything happens. -/
theorem segmentation_fault_sample : NoEffect sampleAdded 1 (stateAfter sampleAdded sampleNull) ↔
    FaultsEarly samplePlatform ⟨true, ⟨none, 0⟩, ⟨none, 0⟩⟩ sampleAdded 0 1 := by
  have second : Step samplePlatform sampleAdded ⟨sampleNull, .fault⟩
      (stateAfter sampleAdded sampleNull) :=
    ⟨trivial, execute_stateAfter (by decide +kernel)⟩
  have member : sampleStep sampleAdded sampleNull .fault ∈
      [] ++ [sampleStep sampleStart sampleAdd (.done [])] ++ [sampleStep sampleAdded sampleNull .fault] :=
    List.mem_append_right _ List.mem_cons_self
  have called : (sampleStep sampleAdded sampleNull .fault).action =
      ⟨.write ⟨true, ⟨none, 0⟩, ⟨none, 0⟩⟩ 0 1 [104, 105], .fault⟩ := rfl
  have result := segmentation_fault_iff ((Run.start.next sample_added).next second) member
    (.inr ⟨_, called⟩)
  exact result

/-- A write to the text of the process, which may only be read. -/
def sampleText : Event := .write ⟨true, ⟨none, 5⟩, ⟨none, 6⟩⟩ 0x08048000 1 [104]

/-- A forbidden write to a page that was never used takes two frames before it faults. -/
theorem forbidden_write_has_effect :
    Run (Step samplePlatform) (mmuCreate fun _ => 0)
      [sampleStep sampleStart sampleAdd (.done []), sampleStep sampleAdded sampleText .fault]
      (stateAfter sampleAdded sampleText) ∧
    sampleAdded.numPageFaults = 0 ∧ (stateAfter sampleAdded sampleText).numPageFaults = 2 ∧
    (stateAfter sampleAdded sampleText).numTlbMisses = 1 ∧
    (stateAfter sampleAdded sampleText).kernel.frames 6 ≠ none ∧
    ¬ NoEffect sampleAdded 1 (stateAfter sampleAdded sampleText) := by
  have second : Step samplePlatform sampleAdded ⟨sampleText, .fault⟩
      (stateAfter sampleAdded sampleText) :=
    ⟨trivial, execute_stateAfter (by decide +kernel)⟩
  have before : sampleAdded.numPageFaults = 0 := by decide +kernel
  have after : (stateAfter sampleAdded sampleText).numPageFaults = 2 := by decide +kernel
  refine ⟨(Run.start.next sample_added).next second, before, after, by decide +kernel, by decide +kernel,
    fun harmless => ?_⟩
  have two : 2 = 0 := after.symm.trans (harmless.numPageFaults.trans before)
  cases two

end SystemProgramming.Mmu
