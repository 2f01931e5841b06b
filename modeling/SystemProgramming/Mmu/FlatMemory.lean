import SystemProgramming.Foundations.Runs
import SystemProgramming.Mmu.Adding
import SystemProgramming.Mmu.Removal

/-! Runs of the unit, and the private flat memory that every process sees in them. -/

namespace SystemProgramming.Mmu

open Foundations

/-- A call to the unit, with what kernel and cache decide during it. -/
inductive Event where
  | add (choices : AddChoices) (pid : Nat)
  | remove (pid : Nat)
  | read (choices : AccessChoices) (virtualAddress : UInt32) (pid numBytes : Nat)
  | write (choices : AccessChoices) (virtualAddress : UInt32) (pid : Nat) (buffer : List UInt8)
  deriving DecidableEq, Repr

/-- The call of an event; nothing happens when an assertion fails or the kernel has no frame. -/
def execute (platform : Platform) (st : State) : Event → Option (Outcome × State)
  | .add choices pid => (mmuAddProcess platform choices st pid).map fun st => (.done [], st)
  | .remove pid => (mmuRemoveProcess platform st pid).map fun st => (.done [], st)
  | .read choices virtualAddress pid numBytes =>
    mmuReadFromVirtualAddress platform choices st virtualAddress pid numBytes
  | .write choices virtualAddress pid buffer =>
    mmuWriteToVirtualAddress platform choices st virtualAddress pid buffer

/-- A call with its outcome. -/
structure Action where
  event : Event
  outcome : Outcome
  deriving DecidableEq, Repr

/-- A process is added only when it is not live. -/
def Permitted (st : State) : Event → Prop
  | .add _ pid => st.pageDirectories pid = none
  | _ => True

instance decidablePermitted (st : State) : (event : Event) → Decidable (Permitted st event)
  | .add _ pid => inferInstanceAs (Decidable (st.pageDirectories pid = none))
  | .remove _ => isTrue trivial
  | .read _ _ _ _ => isTrue trivial
  | .write _ _ _ _ => isTrue trivial

/-- One call in a run. -/
structure Step (platform : Platform) (before : State) (action : Action) (after : State) : Prop where
  permitted : Permitted before action.event
  executed : execute platform before action.event = some (action.outcome, after)

/-- A private flat memory for every process. -/
abbrev FlatMemories := Nat → Memory

/-- What a call means for the flat memories: a new process starts with zeros, a write stores. -/
def FlatMemories.after (flat : FlatMemories) : Action → FlatMemories
  | ⟨.add _ pid, .done _⟩ => Function.update flat pid fun _ => 0
  | ⟨.write _ virtualAddress pid buffer, .done _⟩ =>
    Function.update flat pid ((flat pid).writeBytes virtualAddress.toNat buffer)
  | _ => flat

/-- The flat memories after a run. -/
def flatMemories (trace : List (Transition State Action)) : FlatMemories :=
  trace.foldl (fun flat taken => flat.after taken.action) fun _ _ => 0

/-- Every process sees its flat memory through its page tables. -/
def Shows (st : State) (tree : Tree) (flat : FlatMemories) : Prop :=
  ∀ pid root, st.pageDirectories pid = some (root * pageSize) → ∀ address, address < 2 ^ 32 →
    byteAt st.kernel tree (root, pageOf address) (address % pageSize) = flat pid address

variable {platform : Platform} {st st' : State} {tree tree' : Tree} {flat : FlatMemories}
  {pid root : Nat} {virtualAddress : UInt32} {memory : Memory}
  {trace earlier later : List (Transition State Action)} {final : State}

/-- An address space that keeps its bytes still shows the same memory. -/
theorem Shows.keep (shows : Shows st tree flat)
    (directories : ∀ pid root, st'.pageDirectories pid = some (root * pageSize) →
      st.pageDirectories pid = some (root * pageSize) ∧ ∀ i j offset, offset < pageSize →
        byteAt st'.kernel tree' (root, .page i j) offset =
          byteAt st.kernel tree (root, .page i j) offset) : Shows st' tree' flat := by
  intro pid root used address small
  obtain ⟨used', bytes⟩ := directories pid root used
  exact (bytes _ _ _ (Nat.mod_lt _ (by decide))).trans (shows pid root used' address small)

theorem Step.add {choices : AddChoices} {outcome : Outcome}
    (step : Step platform st ⟨.add choices pid, outcome⟩ st') :
    outcome = .done [] ∧ st.pageDirectories pid = none ∧
      mmuAddProcess platform choices st pid = some st' := by
  obtain ⟨after, added, same⟩ := Option.map_eq_some_iff.mp step.executed
  obtain ⟨rfl, rfl⟩ := Prod.mk.inj same
  exact ⟨rfl, step.permitted, added⟩

theorem Step.remove {outcome : Outcome} (step : Step platform st ⟨.remove pid, outcome⟩ st') :
    outcome = .done [] ∧ st' = removeProcess platform st pid := by
  obtain ⟨after, removed, same⟩ := Option.map_eq_some_iff.mp step.executed
  obtain ⟨rfl, rfl⟩ := Prod.mk.inj same
  rw [mmuRemoveProcess] at removed
  split at removed
  · exact ⟨rfl, (Option.some.inj removed).symm⟩
  · cases removed

/-- A new process sees zeros, and the others see what they saw. -/
theorem Added.shows (consistent : Consistent platform st tree) (shows : Shows st tree flat)
    (added : Added platform st tree pid st' tree' root) :
    Shows st' tree' (Function.update flat pid fun _ => 0) := by
  intro pid' root' used address small
  have offset_lt : address % pageSize < pageSize := Nat.mod_lt _ (by decide)
  rw [added.pageDirectories, Function.update_apply] at used
  rw [pageOf, added.bytes _ _ _ _ offset_lt]
  by_cases same : pid' = pid
  · rw [if_pos same] at used
    -- The new process has the new root, below which every page is zero.
    have roots : root = root' :=
      Nat.eq_of_mul_eq_mul_right (by decide) (Option.some.inj used)
    rw [same, Function.update_self, ← roots]
    exact consistent.represents.zero_below added.new _ _ _
  · rw [if_neg same] at used
    rw [Function.update_of_ne same]
    exact shows pid' root' used address small

/-- The processes that stay see what they saw. -/
theorem Removed.shows (consistent : Consistent platform st tree) (shows : Shows st tree flat)
    (removed : Removed platform st tree pid tree') :
    Shows (removeProcess platform st pid) tree' flat := by
  refine shows.keep fun pid' root used => ?_
  rw [removeProcess_pageDirectories, Function.update_apply] at used
  split at used
  · cases used
  · -- A process that stays has another directory than the removed one.
    rename_i other
    exact ⟨used, fun i j offset _ => removed.bytes root
      (fun its => other (consistent.unshared _ _ _ used its)) i j offset⟩

/-- A write stores into the flat memory of its process. -/
theorem write_shows {buffer : List UInt8} (consistent : Consistent platform st tree)
    (shows : Shows st tree flat) (same : st'.pageDirectories = st.pageDirectories)
    (at_root : st.pageDirectories pid = some (root * pageSize))
    (inside : buffer.length + virtualAddress.toNat % pageSize ≤ pageSize)
    (bytes : ∀ root' i j offset, offset < pageSize →
      byteAt st'.kernel tree' (root', .page i j) offset =
        if (root', Path.page i j) = (root, pageOf virtualAddress.toNat) ∧
            virtualAddress.toNat % pageSize ≤ offset ∧
            offset < virtualAddress.toNat % pageSize + buffer.length then
          buffer.getD (offset - virtualAddress.toNat % pageSize) 0
        else byteAt st.kernel tree (root', .page i j) offset) :
    Shows st' tree'
      (Function.update flat pid ((flat pid).writeBytes virtualAddress.toNat buffer)) := by
  intro pid' root' used address small
  rw [same] at used
  have old := shows pid' root' used address small
  have start_small := virtualAddress.toNat_lt
  rw [pageOf] at old ⊢
  rw [bytes _ _ _ _ (Nat.mod_lt _ (by decide)), old]
  by_cases own : pid' = pid
  · -- In the page of the write, offsets and addresses differ by the same amount.
    subst own
    obtain rfl := Nat.eq_of_mul_eq_mul_right (by decide) (Option.some.inj (at_root.symm.trans used))
    rw [Function.update_self, Memory.writeBytes]
    simp only [pageSize] at inside ⊢
    by_cases page : address / 2 ^ 12 = virtualAddress.toNat / 2 ^ 12
    · have place : (root, pageOf address) = (root, pageOf virtualAddress.toNat) :=
        congrArg (Prod.mk root) (pageOf_congr page)
      by_cases range : virtualAddress.toNat ≤ address ∧ address < virtualAddress.toNat + buffer.length
      · have shift : address % 4096 - virtualAddress.toNat % 4096 = address - virtualAddress.toNat := by
          omega
        rw [if_pos range, if_pos ⟨place, by omega, by omega⟩, shift]
      · rw [if_neg range, if_neg fun both => range ⟨by omega, by omega⟩]
    · rw [if_neg, if_neg]
      · omega
      · exact fun both => page (page_of_pageOf small start_small (Prod.mk.inj both.1).2)
  · -- Another process has another root, so the write is in none of its pages.
    rw [Function.update_of_ne own, if_neg]
    intro both
    have equal := both.1
    obtain rfl := (Prod.mk.inj equal).1
    exact own (consistent.unshared _ _ _ used at_root)

/-- Every call keeps unit and tree in step, and every process sees its flat memory afterwards. -/
theorem shows_step {action : Action} (consistent : Consistent platform st tree)
    (shows : Shows st tree flat) (step : Step platform st action st') :
    ∃ tree', Consistent platform st' tree' ∧ Shows st' tree' (flat.after action) := by
  obtain ⟨event, outcome⟩ := action
  cases event with
  | add choices pid =>
    obtain ⟨rfl, idle, called⟩ := step.add
    obtain ⟨tree', root, added⟩ := mmuAddProcess_spec consistent (fun _ _ => idle) called
    exact ⟨tree', added.consistent, added.shows consistent shows⟩
  | remove pid =>
    obtain ⟨rfl, rfl⟩ := step.remove
    obtain ⟨tree', removed⟩ := removeProcess_spec consistent pid
    exact ⟨tree', removed.consistent, removed.shows consistent shows⟩
  | read choices virtualAddress pid numBytes =>
    obtain ⟨tree', consistent', keeps, _⟩ := read_spec (access_spec consistent step.executed)
    -- A read changes no flat memory.
    have same : flat.after ⟨.read choices virtualAddress pid numBytes, outcome⟩ = flat := rfl
    rw [same]
    refine ⟨tree', consistent', shows.keep fun pid' root used => ?_⟩
    rw [keeps.pageDirectories, switchTo_pageDirectories] at used
    have carries := keeps.carries
    rw [switchTo_kernel] at carries
    exact ⟨used, carries.bytes root⟩
  | write choices virtualAddress pid buffer =>
    obtain ⟨tree', consistent', same, _, _, faulted, copied⟩ :=
      write_spec (access_spec consistent step.executed)
    refine ⟨tree', consistent', ?_⟩
    cases outcome with
    -- A fault stores nothing, neither in the pages nor in the flat memory.
    | fault =>
      exact shows.keep fun pid' root used => ⟨same ▸ used, (faulted rfl).bytes root⟩
    | done out =>
      obtain ⟨root, at_root, inside, bytes⟩ := copied (by simp)
      exact write_shows consistent shows same at_root inside bytes

/-- A new unit has no address space. -/
theorem mmuCreate_consistent (platform : Platform) (memory : Memory) :
    Consistent platform (mmuCreate memory) fun _ => none := by
  have no_slot (place : Place) : Tree.slot (fun _ => none) place = none := by
    rw [Tree.slot]
    cases place.2.parent <;> rfl
  refine ⟨⟨fun place slot its => ?_, fun _ _ _ => rfl, fun _ _ none => ?_, fun _ _ none => ?_,
    fun _ _ none => ?_, fun _ _ _ none => ?_, fun _ _ none => ?_, fun _ _ none => ?_⟩,
    fun _ _ none => ?_, fun _ _ _ none => ?_, fun _ _ member => absurd member List.not_mem_nil⟩
  · rw [no_slot] at its
    cases its
  all_goals cases none

/-- After any calls, every process sees the flat memory that the calls made. -/
theorem shows_of_run (run : Run (Step platform) (mmuCreate memory) trace final) :
    ∃ tree, Consistent platform final tree ∧ Shows final tree (flatMemories trace) := by
  refine @Run.history _ _ _ _ _ _ (fun trace st =>
    ∃ tree, Consistent platform st tree ∧ Shows st tree (flatMemories trace)) run
    ⟨_, mmuCreate_consistent platform memory, fun _ _ none => absurd none nofun⟩ ?_
  -- One more call extends the trace by its action.
  intro trace before action after invariant step
  obtain ⟨tree, consistent, shows⟩ := invariant
  obtain ⟨tree', consistent', shows'⟩ := shows_step consistent shows step
  refine ⟨tree', consistent', ?_⟩
  rw [flatMemories, List.foldl_append]
  exact shows'

/--
The unit implements private flat memories: whatever the kernel evicts and the cache keeps, a read
that copies data out returns the bytes of the flat memory of its process.
-/
theorem reads_flat_memory {choices : AccessChoices} {numBytes : Nat} {bytes : List UInt8}
    {taken : Transition State Action}
    (run : Run (Step platform) (mmuCreate memory) (earlier ++ taken :: later) final)
    (read : taken.action = ⟨.read choices virtualAddress pid numBytes, .done bytes⟩) :
    bytes = (flatMemories earlier pid).readBytes virtualAddress.toNat numBytes := by
  -- The read is cut out of the run: before it, every process sees its flat memory.
  obtain ⟨reached, step⟩ := run.cut
  rw [read] at step
  obtain ⟨tree, consistent, shows⟩ := shows_of_run reached
  have accessed := access_spec consistent step.executed
  obtain ⟨_, _, _, copied⟩ := read_spec accessed
  obtain ⟨root, used, inside, rfl⟩ := copied bytes rfl
  refine List.map_congr_left fun offset member => shows pid root used _ ?_
  have below := List.mem_range.mp member
  -- The addresses of the piece stay below the end of the address space.
  have small := virtualAddress.toNat_lt
  simp only [pageSize] at inside
  omega

/-- A layout with the flags in the low bits and the frame above them. -/
def sampleFormat : EntryFormat where
  fields word :=
    { present := word.testBit 0
      readWrite := word.testBit 1
      userSupervisor := word.testBit 2
      accessed := word.testBit 5
      dirty := word.testBit 6
      baseAddr := word / 2 ^ 12 % 2 ^ 20 }
  assign _ entry :=
    entry.present.toNat + 2 * entry.readWrite.toNat + 4 * entry.userSupervisor.toNat +
      32 * entry.accessed.toNat + 64 * entry.dirty.toNat + 2 ^ 12 * (entry.baseAddr % 2 ^ 20)
  assign_lt _ entry := by
    have present := Bool.toNat_le entry.present
    have readWrite := Bool.toNat_le entry.readWrite
    have userSupervisor := Bool.toNat_le entry.userSupervisor
    have accessed := Bool.toNat_le entry.accessed
    have dirty := Bool.toNat_le entry.dirty
    omega
  fields_assign _ entry small := by
    obtain ⟨present, readWrite, userSupervisor, accessed, dirty, baseAddr⟩ := entry
    have bit (word place : Nat) (flag : Bool) (its : word / 2 ^ place % 2 = flag.toNat) :
        word.testBit place = flag := by
      rw [Nat.testBit_eq_decide_div_mod_eq, its]
      cases flag <;> rfl
    have present_le := present.toNat_le
    have readWrite_le := readWrite.toNat_le
    have userSupervisor_le := userSupervisor.toNat_le
    have accessed_le := accessed.toNat_le
    have dirty_le := dirty.toNat_le
    simp only [Entry.mk.injEq] at small ⊢
    exact ⟨bit _ _ _ (by omega), bit _ _ _ (by omega), bit _ _ _ (by omega), bit _ _ _ (by omega),
      bit _ _ _ (by omega), by omega⟩
  zero_absent := by decide
  baseAddr_lt word := Nat.mod_lt _ (by decide)

/-- The first segment that has the address. -/
def sampleSegment (segmentations : Segmentations) (address : UInt32) : Option Segment :=
  ([SegmentName.stack, .mmap, .heap, .bss, .data, .text, .testing].map segmentations).find?
    fun segment => segment.start ≤ address.toNat && address.toNat < segment.stop

/-- A unit for eight processes. -/
def samplePlatform : Platform := ⟨sampleFormat, sampleFormat, sampleSegment, 8⟩

/-- The state that a call leaves; a call that does not run leaves the old one. -/
def stateAfter (st : State) (event : Event) : State :=
  ((execute samplePlatform st event).map Prod.snd).getD st

/-- A call is known by its outcome and the state it leaves. -/
theorem execute_stateAfter {event : Event} {outcome : Outcome}
    (ends : (execute samplePlatform st event).map Prod.fst = some outcome) :
    execute samplePlatform st event = some (outcome, stateAfter st event) := by
  rw [stateAfter]
  cases called : execute samplePlatform st event with
  | none =>
    rw [called] at ends
    cases ends
  | some pair =>
    rw [called] at ends
    exact congrArg some (Prod.ext (Option.some.inj ends) rfl)

/-- A call as the next step of a run. -/
def sampleStep (st : State) (event : Event) (outcome : Outcome) : Transition State Action :=
  ⟨st, ⟨event, outcome⟩, stateAfter st event⟩

/-- The first process takes four frames and writes into its first page. -/
def sampleAdd : Event := .add ⟨⟨none, 1⟩, ⟨none, 2⟩, ⟨none, 3⟩, ⟨none, 4⟩⟩ 1

def sampleWrite : Event := .write ⟨true, ⟨none, 0⟩, ⟨none, 0⟩⟩ 0x1000 1 [7, 8, 9]

/-- For the second process, the kernel evicts the page that was written. -/
def sampleEvict : Event := .add ⟨⟨some 3, 3⟩, ⟨none, 5⟩, ⟨none, 6⟩, ⟨none, 7⟩⟩ 2

/-- The page comes back in another frame. -/
def sampleRead : Event := .read ⟨true, ⟨none, 0⟩, ⟨none, 8⟩⟩ 0x1001 1 2

def sampleStart : State := mmuCreate fun _ => 0

def sampleAdded : State := stateAfter sampleStart sampleAdd

def sampleWritten : State := stateAfter sampleAdded sampleWrite

def sampleEvicted : State := stateAfter sampleWritten sampleEvict

/-- The calls before the read. -/
def sampleTrace : List (Transition State Action) :=
  [sampleStep sampleStart sampleAdd (.done []), sampleStep sampleAdded sampleWrite (.done []),
    sampleStep sampleWritten sampleEvict (.done [])]

theorem sample_added : Step samplePlatform sampleStart ⟨sampleAdd, .done []⟩ sampleAdded :=
  ⟨by decide +kernel, execute_stateAfter (by decide +kernel)⟩

/-- A write, an eviction of the written page, and a read that faults it in again. -/
theorem sample_run : Run (Step samplePlatform) (mmuCreate fun _ => 0)
    (sampleTrace ++ [sampleStep sampleEvicted sampleRead (.done [8, 9])])
    (stateAfter sampleEvicted sampleRead) := by
  have second : Step samplePlatform sampleAdded ⟨sampleWrite, .done []⟩ sampleWritten :=
    ⟨trivial, execute_stateAfter (by decide +kernel)⟩
  have third : Step samplePlatform sampleWritten ⟨sampleEvict, .done []⟩ sampleEvicted :=
    ⟨by decide +kernel, execute_stateAfter (by decide +kernel)⟩
  have fourth : Step samplePlatform sampleEvicted ⟨sampleRead, .done [8, 9]⟩
      (stateAfter sampleEvicted sampleRead) :=
    ⟨trivial, execute_stateAfter (by decide +kernel)⟩
  exact (((Run.start.next sample_added).next second).next third).next fourth

theorem reads_flat_memory_sample :
    [8, 9] = (flatMemories sampleTrace 1).readBytes (0x1001 : UInt32).toNat 2 :=
  reads_flat_memory sample_run rfl

end SystemProgramming.Mmu
