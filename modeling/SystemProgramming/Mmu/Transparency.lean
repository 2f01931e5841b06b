import SystemProgramming.Mmu.Accounting

/-! The cache is transparent: a run with it and the run without it differ in its misses only. -/

namespace SystemProgramming.Mmu

open Foundations

/-- The state apart from the cache and the count of its misses. -/
def State.hide (st : State) : State := { st with tlb := [], numTlbMisses := 0 }

/-- The same call when the cache always forgets. -/
def Event.uncached : Event → Event
  | .read choices virtualAddress pid numBytes =>
    .read { choices with hit := false } virtualAddress pid numBytes
  | .write choices virtualAddress pid buffer =>
    .write { choices with hit := false } virtualAddress pid buffer
  | event => event

/-- Several calls in a row, with their outcomes; nothing when one of them does not run. -/
def serve (platform : Platform) (st : State) : List Event → Option (List Outcome × State)
  | [] => some ([], st)
  | event :: events => do
    let (outcome, st) ← execute platform st event
    let (outcomes, st) ← serve platform st events
    some (outcome :: outcomes, st)

/-- What can be seen of a result: everything but the cache and the count of its misses. -/
def observe {Result : Type} (result : Result × State) : Result × State :=
  (result.1, result.2.hide)

variable {platform : Platform} {st st' : State} {tree tree' : Tree} {pid root pde pte : Nat}
  {choices : AccessChoices} {virtualAddress : UInt32} {memory : Memory}

/-- Results that look alike stay alike when they are used alike. -/
theorem bind_alike {α β γ δ : Type} {first second : Option α} {view : α → γ} {seen : β → δ}
    {use uses : α → Option β} (alike : first.map view = second.map view)
    (rest : ∀ a b, view a = view b → (use a).map seen = (uses b).map seen) :
    (first.bind use).map seen = (second.bind uses).map seen := by
  -- Either both fail, or both go on from results that look alike.
  cases first with
  | none =>
    cases second with
    | none => rfl
    | some b => cases alike
  | some a =>
    cases second with
    | none => cases alike
    | some b => exact rest a b (Option.some.inj alike)

/-- One result may be used in two ways that look alike. -/
theorem bind_same {α β δ : Type} {result : Option α} {seen : β → δ} {use uses : α → Option β}
    (rest : ∀ a, (use a).map seen = (uses a).map seen) :
    (result.bind use).map seen = (result.bind uses).map seen := by
  cases result with
  | none => rfl
  | some a => exact rest a

/-- States that look alike differ in the cache only. -/
theorem hide_eq (alike : st.hide = st'.hide) :
    ∃ tlb misses, st' = { st with tlb := tlb, numTlbMisses := misses } := by
  obtain ⟨kernel, currPid, tlb, pageDirectories, segmentations, misses, faults, violations⟩ := st'
  simp only [State.hide, State.mk.injEq] at alike
  obtain ⟨rfl, rfl, -, rfl, rfl, -, rfl, rfl⟩ := alike
  exact ⟨tlb, misses, rfl⟩

theorem switchTo_alike (alike : st.hide = st'.hide) (pid : Nat) :
    (switchTo st pid).hide = (switchTo st' pid).hide := by
  obtain ⟨tlb, misses, rfl⟩ := hide_eq alike
  rw [switchTo, switchTo]
  split <;> rfl

theorem ensureTable_alike {choice : Choice} (alike : st.hide = st'.hide) :
    (ensureTable platform choice st pde).map State.hide =
      (ensureTable platform choice st' pde).map State.hide := by
  obtain ⟨tlb, misses, rfl⟩ := hide_eq alike
  rw [ensureTable, ensureTable]
  split
  · rfl
  · exact bind_same fun _ => rfl

theorem ensurePage_alike {choice : Choice} (alike : st.hide = st'.hide) :
    (ensurePage platform choice st pte).map State.hide =
      (ensurePage platform choice st' pte).map State.hide := by
  obtain ⟨tlb, misses, rfl⟩ := hide_eq alike
  rw [ensurePage, ensurePage]
  split
  · rfl
  · exact bind_same fun _ => rfl

/-- A table that is there is not asked for. -/
theorem ensureTable_of_present (rep : Represents platform st.kernel tree) {i : Fin numEntries}
    {frame : Nat} (at_slot : tree.slot (root, .table i) = some pde)
    (present : tree (root, .table i) = some frame) (choice : Choice) :
    ensureTable platform choice st pde = some st ∧
      (platform.directoryEntry.read st.kernel.mem pde).baseAddr = frame := by
  -- The directory entry points to the table, so it is present.
  obtain ⟨here, base⟩ := EntryFormat.target_eq_some.mp ((rep.entries _ _ at_slot).trans present)
  simp only [Path.format] at here base
  rw [ensureTable, if_pos here]
  exact ⟨rfl, base⟩

/-- Without the cache, a table that is there is found through the directory, and nothing else. -/
theorem findPte_of_present (rep : Represents platform st.kernel tree)
    (current : st.pageDirectories pid = some (root * pageSize))
    (planted : tree (root, .directory) = some root)
    (at_slot : tree.slot (root, pageOf virtualAddress.toNat) = some pte)
    (forgotten : tlbGetPte choices.hit st (addrBase virtualAddress) = none) :
    findPte platform choices st virtualAddress pid =
      some (pte, tlbAddPte (mmuTlbMiss st) (addrBase virtualAddress) pte) := by
  have slots := at_slot
  rw [pageOf, slot_page] at slots
  obtain ⟨frame, table, _⟩ := Option.map_eq_some_iff.mp slots
  have at_page := Option.some.inj (at_slot.symm.trans (slot_pageOf table))
  have walked : Represents platform (mmuTlbMiss st).kernel tree := rep
  -- The table is present, so the walk only counts the miss and fills the cache.
  obtain ⟨ensured, base⟩ := ensureTable_of_present walked (slot_tableOf planted) table choices.table
  rw [findPte, forgotten]
  simp only [current, Option.bind_eq_bind, Option.bind_some, ensured, base, ← at_page]

/-- The entry from the cache is the one that the walk through the directory finds. -/
theorem findPte_alike (consistent : Consistent platform st tree) (running : st.currPid = pid)
    (alike : st.hide = st'.hide) :
    (findPte platform choices st virtualAddress pid).map observe =
      (findPte platform { choices with hit := false } st' virtualAddress pid).map observe := by
  obtain ⟨tlb, misses, rfl⟩ := hide_eq alike
  cases cached : tlbGetPte choices.hit st (addrBase virtualAddress) with
  | some pte =>
    -- A hit: the cached entry belongs to the page, so the walk would find the same one.
    subst running
    obtain ⟨root, other, current, key, at_slot⟩ := consistent.cached _ _ (tlbGetPte_mem cached)
    obtain ⟨root', same, planted⟩ := consistent.planted _ _ current
    obtain rfl := Nat.eq_of_mul_eq_mul_right (by decide) same
    rw [pageOf_of_addrBase key] at at_slot
    have walked : Represents platform
      { st with tlb := tlb, numTlbMisses := misses }.kernel tree := consistent.represents
    rw [findPte_of_present walked current planted at_slot rfl, findPte, cached]
    rfl
  | none =>
    -- A miss: both walk, in states that differ in the cache only.
    rw [findPte, cached, findPte]
    refine bind_same fun directory => bind_alike (ensureTable_alike rfl) fun a b same => ?_
    obtain ⟨tlb', misses', rfl⟩ := hide_eq same
    rfl

/-- From the segment check on, an access does not look at the cache except for its entry. -/
theorem access_alike {numBytes : Nat} {permitted : Segment → Bool}
    {copy : Kernel → Nat → Nat → List UInt8 × Kernel} (consistent : Consistent platform st tree)
    (alike : st.hide = st'.hide) :
    (access platform choices st virtualAddress pid numBytes permitted copy).map observe =
      (access platform { choices with hit := false } st' virtualAddress pid numBytes permitted
        copy).map observe := by
  have switched := consistent.switchTo_consistent pid
  have both := switchTo_alike alike pid
  have segmentations : st'.segmentations = st.segmentations := by
    obtain ⟨tlb, misses, rfl⟩ := hide_eq alike
    rfl
  rw [access, access]
  split
  · simp only [switchTo_segmentations, segmentations]
    refine bind_same fun segments => ?_
    split
    · obtain ⟨tlb, misses, same⟩ := hide_eq both
      -- The address has no segment, whatever the cache holds.
      rw [same]
      rfl
    · -- Both find the same entry and bring in the same page, and the copy does not see the cache.
      refine bind_alike (findPte_alike switched switchTo_currPid both) ?_
      intro mine its same
      obtain ⟨pte, found⟩ := mine
      obtain ⟨pte', found'⟩ := its
      obtain ⟨rfl, found_same⟩ := Prod.mk.inj same
      refine bind_alike (ensurePage_alike found_same) fun a b ended => bind_same fun segment => ?_
      obtain ⟨tlb, misses, rfl⟩ := hide_eq ended
      split <;> rfl
  · rfl

theorem mmuAddProcess_alike {choices : AddChoices} (alike : st.hide = st'.hide) :
    (mmuAddProcess platform choices st pid).map State.hide =
      (mmuAddProcess platform choices st' pid).map State.hide := by
  obtain ⟨tlb, misses, rfl⟩ := hide_eq alike
  rw [mmuAddProcess, mmuAddProcess]
  split
  · exact bind_same fun _ => bind_same fun _ => bind_same fun _ => bind_same fun _ => rfl
  · rfl

theorem mmuRemoveProcess_alike (alike : st.hide = st'.hide) :
    (mmuRemoveProcess platform st pid).map State.hide =
      (mmuRemoveProcess platform st' pid).map State.hide := by
  obtain ⟨tlb, misses, rfl⟩ := hide_eq alike
  rw [mmuRemoveProcess, mmuRemoveProcess]
  split
  · rw [removeProcess, removeProcess]
    split <;> rfl
  · rfl

/-- Calls without data look alike when the states they leave do. -/
theorem silent_alike {first second : Option State}
    (alike : first.map State.hide = second.map State.hide) :
    (first.map fun st => (Outcome.done [], st)).map observe =
      (second.map fun st => (Outcome.done [], st)).map observe := by
  have wrapped := congrArg (Option.map fun st => (Outcome.done [], st)) alike
  simp only [Option.map_map] at wrapped ⊢
  exact wrapped

/-- Every call looks the same with the cache and without it. -/
theorem execute_alike (event : Event) (consistent : Consistent platform st tree)
    (alike : st.hide = st'.hide) :
    (execute platform st event).map observe =
      (execute platform st' event.uncached).map observe := by
  cases event with
  | add choices pid => exact silent_alike (mmuAddProcess_alike alike)
  | remove pid => exact silent_alike (mmuRemoveProcess_alike alike)
  | read choices virtualAddress pid numBytes => exact access_alike consistent alike
  | write choices virtualAddress pid buffer => exact access_alike consistent alike

/-- A live process whose entries are in the cache is not added again. -/
def Careful (st : State) : Event → Prop
  | .add _ pid => st.tlb ≠ [] → st.currPid = pid → st.pageDirectories pid = none
  | _ => True

/-- Several calls in a row are careful when each of them is, in the state where it is made. -/
def AllCareful (platform : Platform) (st : State) : List Event → Prop
  | [] => True
  | event :: events => Careful st event ∧ ∀ outcome st',
    execute platform st event = some (outcome, st') → AllCareful platform st' events

/-- A careful call keeps the cache on the tables of the current process. -/
theorem careful_step {event : Event} {outcome : Outcome} (consistent : Consistent platform st tree)
    (careful : Careful st event) (executed : execute platform st event = some (outcome, st')) :
    ∃ tree', Consistent platform st' tree' := by
  cases event with
  | add choices pid =>
    obtain ⟨after, called, same⟩ := Option.map_eq_some_iff.mp executed
    obtain ⟨-, rfl⟩ := Prod.mk.inj same
    obtain ⟨tree', root, added⟩ := mmuAddProcess_spec consistent careful called
    exact ⟨tree', added.consistent⟩
  | remove pid =>
    -- A removal is always permitted, so it is a step.
    obtain ⟨-, rfl⟩ := Step.remove ⟨trivial, executed⟩
    obtain ⟨tree', removed⟩ := removeProcess_spec consistent pid
    exact ⟨tree', removed.consistent⟩
  | read choices virtualAddress pid numBytes =>
    obtain ⟨tree', consistent', _⟩ := read_spec (access_spec consistent executed)
    exact ⟨tree', consistent'⟩
  | write choices virtualAddress pid buffer =>
    obtain ⟨tree', consistent', _⟩ := write_spec (access_spec consistent executed)
    exact ⟨tree', consistent'⟩

/-- Careful calls look the same with the cache and without it. -/
theorem serve_alike {events : List Event} (consistent : Consistent platform st tree)
    (alike : st.hide = st'.hide) (careful : AllCareful platform st events) :
    (serve platform st events).map observe =
      (serve platform st' (events.map Event.uncached)).map observe := by
  induction events generalizing st st' tree with
  | nil => exact congrArg some (Prod.ext rfl alike)
  | cons event events ih =>
    -- The first call looks the same, so the states after it look alike again.
    have first := execute_alike event consistent alike
    rw [List.map_cons, serve, serve]
    cases executed : execute platform st event with
    | none =>
      rw [executed] at first
      cases second : execute platform st' event.uncached with
      | none => rfl
      | some _ =>
        rw [second] at first
        cases first
    | some result =>
      obtain ⟨outcome, after⟩ := result
      -- Consistency is needed of the first run only: it is the one that uses the cache.
      obtain ⟨tree', consistent'⟩ := careful_step consistent careful.1 executed
      rw [executed] at first
      cases second : execute platform st' event.uncached with
      | none =>
        rw [second] at first
        cases first
      | some result' =>
        obtain ⟨outcome', after'⟩ := result'
        rw [second] at first
        obtain ⟨rfl, afters⟩ := Prod.mk.inj (Option.some.inj first)
        have rest := ih consistent' afters (careful.2 _ _ executed)
        simp only [Option.bind_eq_bind, Option.bind_some]
        refine bind_alike rest ?_
        intro mine its same
        obtain ⟨outcomes, final⟩ := mine
        obtain ⟨outcomes', final'⟩ := its
        obtain ⟨rfl, finals⟩ := Prod.mk.inj same
        exact congrArg some (Prod.ext rfl finals)

/-- Careful calls keep the cache on the tables of the current process. -/
theorem serve_consistent {events : List Event} {outcomes : List Outcome} {final : State}
    (consistent : Consistent platform st tree) (careful : AllCareful platform st events)
    (served : serve platform st events = some (outcomes, final)) :
    ∃ tree', Consistent platform final tree' := by
  induction events generalizing st tree outcomes with
  | nil =>
    obtain ⟨-, rfl⟩ := Prod.mk.inj (Option.some.inj served)
    exact ⟨tree, consistent⟩
  | cons event events ih =>
    obtain ⟨⟨outcome, after⟩, executed, rest⟩ := Option.bind_eq_some_iff.mp served
    obtain ⟨⟨outcomes', final'⟩, served', rest⟩ := Option.bind_eq_some_iff.mp rest
    obtain ⟨-, rfl⟩ := Prod.mk.inj (Option.some.inj rest)
    obtain ⟨tree', consistent'⟩ := careful_step consistent careful.1 executed
    exact ih consistent' (careful.2 _ _ executed) served'

/--
Every cached pair denotes the entry of its page in a table of the current process, in a frame that
the kernel still counts as obtained.
-/
def CacheExact (platform : Platform) (st : State) : Prop :=
  ∀ base pte, (base, pte) ∈ st.tlb → ∃ frame,
    frameOf platform st st.currPid (tableOf base.toNat) = some frame ∧
      st.kernel.frames frame = some none ∧ pte = frame * pageSize + entrySize * (addrIdx base).toNat

/-- A consistent unit has an exact cache. -/
theorem Consistent.cache_exact (consistent : Consistent platform st tree) :
    CacheExact platform st := by
  intro base pte member
  obtain ⟨root, virtualAddress, current, rfl, at_slot⟩ := consistent.cached _ _ member
  -- The key keeps the page number, hence both indices.
  have page := addrBase_toNat virtualAddress
  have index : (addrIdx (addrBase virtualAddress)).toNat = (addrIdx virtualAddress).toNat := by
    rw [addrIdx_toNat, addrIdx_toNat, page]
  have tables : tableOf (addrBase virtualAddress).toNat = tableOf virtualAddress.toNat := by
    have upper : (addrBase virtualAddress).toNat / 2 ^ 22 = virtualAddress.toNat / 2 ^ 22 := by
      omega
    rw [tableOf, tableOf, upper]
  have slots := at_slot
  rw [pageOf, slot_page] at slots
  obtain ⟨frame, table, _⟩ := Option.map_eq_some_iff.mp slots
  have at_page := Option.some.inj (at_slot.symm.trans (slot_pageOf table))
  refine ⟨frame, ?_, consistent.represents.owned _ _ table, by rw [index]; exact at_page⟩
  rw [tables, consistent.frameOf_eq current]
  exact table

/--
As long as no live process with cached entries is added again, calls do the same with the cache
and without it, and the cache is exact in every state that they reach.
-/
theorem tlb_transparent {events : List Event}
    (careful : AllCareful platform (mmuCreate memory) events) :
    (serve platform (mmuCreate memory) events).map observe =
        (serve platform (mmuCreate memory) (events.map Event.uncached)).map observe ∧
      ∀ outcomes final, serve platform (mmuCreate memory) events = some (outcomes, final) →
        CacheExact platform final := by
  have consistent := mmuCreate_consistent platform memory
  refine ⟨serve_alike consistent rfl careful, fun outcomes final served => ?_⟩
  obtain ⟨tree, consistent'⟩ := serve_consistent consistent careful served
  exact consistent'.cache_exact

/-- A careful call before careful ones. -/
theorem AllCareful.cons {event : Event} {events : List Event} (careful : Careful st event)
    (ends : (execute samplePlatform st event).map Prod.fst = some (.done []))
    (rest : AllCareful samplePlatform (stateAfter st event) events) :
    AllCareful samplePlatform st (event :: events) := by
  refine ⟨careful, fun outcome' st' executed => ?_⟩
  -- The calls are functions, so the state after the first one is known.
  rw [execute_stateAfter ends] at executed
  rw [← (Prod.mk.inj (Option.some.inj executed)).2]
  exact rest

/-- The calls of the sample run are careful. -/
theorem sample_careful : AllCareful samplePlatform (mmuCreate fun _ => 0)
    [sampleAdd, sampleWrite, sampleEvict, sampleRead] := by
  have second_pid : Careful sampleWritten sampleEvict := fun _ current =>
    absurd current (by decide +kernel)
  have last : AllCareful samplePlatform sampleEvicted [sampleRead] :=
    ⟨trivial, fun _ _ _ => trivial⟩
  exact .cons (fun full => absurd rfl full) (by decide +kernel)
    (.cons trivial (by decide +kernel) (.cons second_pid (by decide +kernel) last))

theorem tlb_transparent_sample :
    (serve samplePlatform (mmuCreate fun _ => 0)
        [sampleAdd, sampleWrite, sampleEvict, sampleRead]).map observe =
      (serve samplePlatform (mmuCreate fun _ => 0)
        ([sampleAdd, sampleWrite, sampleEvict, sampleRead].map Event.uncached)).map observe :=
  (tlb_transparent sample_careful).1

/-- The process is added again while its first page is in the cache, and reads that page. -/
def readdEvents : List Event :=
  [sampleAdd, .write ⟨true, ⟨none, 0⟩, ⟨none, 0⟩⟩ 0x1000 1 [7],
    .add ⟨⟨none, 5⟩, ⟨none, 6⟩, ⟨none, 7⟩, ⟨none, 8⟩⟩ 1,
    .read ⟨true, ⟨none, 0⟩, ⟨none, 0⟩⟩ 0x1000 1 1]

/-- Adding a live process again leaves its old entries in the cache, and a read sees them. -/
theorem readded_not_transparent :
    ¬ ∀ events, (serve samplePlatform sampleStart events).map observe =
      (serve samplePlatform sampleStart (events.map Event.uncached)).map observe := by
  intro transparent
  have cached : (serve samplePlatform sampleStart readdEvents).map Prod.fst =
      some [.done [], .done [], .done [], .done [7]] := by decide +kernel
  have uncached : (serve samplePlatform sampleStart (readdEvents.map Event.uncached)).map Prod.fst =
      some [.done [], .done [], .done [], .done [0]] := by decide +kernel
  -- If the cache did not matter, the last read would return the same byte.
  have outcomes := congrArg (Option.map Prod.fst) (transparent readdEvents)
  simp only [Option.map_map] at outcomes
  have same : (serve samplePlatform sampleStart readdEvents).map Prod.fst =
      (serve samplePlatform sampleStart (readdEvents.map Event.uncached)).map Prod.fst := outcomes
  rw [cached, uncached] at same
  exact absurd same (by decide)

end SystemProgramming.Mmu
