import SystemProgramming.Malloc.Client

/-! What holds in every run of a program: tiling, the exact free list, and isolated payloads. -/

namespace SystemProgramming.Malloc

open Foundations

variable {h : Heap} {client final : Client} {trace later : List (Transition Client Event)}
  {blocks blocks' : List Block} {list : List Nat} {block : Block} {given requested brk' : Nat}

/-- Every program that started in a fresh process is consistent. -/
theorem consistent_of_run (fresh : Fresh h) (run : Run Step ⟨h, []⟩ trace client) :
    ∃ blocks list, Consistent client blocks list := by
  have empty : Owns [] [] := ⟨fun _ member => absurd member List.not_mem_nil,
    fun _ member => absurd member List.not_mem_nil, List.nodup_nil⟩
  -- A fresh process is consistent without blocks, and every step keeps it so.
  refine @Run.invariant _ _ _ _ _ _ (fun state => ∃ blocks list, Consistent state blocks list) run
    ⟨[], [], fresh.represents, empty⟩ ?_
  intro before event after invariant step
  obtain ⟨blocks, list, consistent⟩ := invariant
  obtain ⟨blocks', list', next, _⟩ := consistent.step step
  exact ⟨blocks', list', next⟩

/-- A process with an empty heap at the first page. -/
def emptyProcess : Heap :=
  { mem := fun _ => 0, brk := 4096, floor := 4096, limit := 2 ^ 40, head := null, start := null }

theorem emptyProcess_fresh : Fresh emptyProcess := by
  refine ⟨rfl, rfl, ?_, ?_, ?_, ?_⟩ <;> decide +kernel

/-- The heap that a call leaves; a call that did not return leaves the old one. -/
def heapAfter (h : Heap) (outcome : Option (Nat × Heap)) : Heap := (outcome.getD (null, h)).2

/-- A call is known by its pointer and the heap it leaves. -/
theorem returns_heapAfter {outcome : Option (Nat × Heap)} {result : Nat}
    (returned : outcome.map Prod.fst = some result) : outcome = some (result, heapAfter h outcome) := by
  -- A call that returned a pointer also left a heap.
  cases outcome with
  | none => cases returned
  | some pair => exact congrArg (fun first => some (first, pair.2)) (Option.some.inj returned)

/-- A block of eight bytes in the empty process. -/
def oneServed : Heap := heapAfter emptyProcess (malloc 1 emptyProcess 8)

/-- A second block of eight bytes behind the first. -/
def twoServed : Heap := heapAfter oneServed (malloc 1 oneServed 8)

/-- Two blocks are served and released, the second one first. -/
def sampleTrace : List (Transition Client Event) :=
  [⟨⟨emptyProcess, []⟩, .malloc 8 4128, ⟨oneServed, [(4128, 8)]⟩⟩,
    ⟨⟨oneServed, [(4128, 8)]⟩, .malloc 8 4176, ⟨twoServed, [(4176, 8), (4128, 8)]⟩⟩,
    ⟨⟨twoServed, [(4176, 8), (4128, 8)]⟩, .free 4176, ⟨free twoServed 4176, [(4128, 8)]⟩⟩,
    ⟨⟨free twoServed 4176, [(4128, 8)]⟩, .free 4128, ⟨free (free twoServed 4176) 4128, []⟩⟩]

/-- The first two steps of the sample program. -/
theorem sample_serves : Run Step ⟨emptyProcess, []⟩ (sampleTrace.take 2)
    ⟨twoServed, [(4176, 8), (4128, 8)]⟩ := by
  have first : Step ⟨emptyProcess, []⟩ (.malloc 8 4128) ⟨oneServed, [(4128, 8)]⟩ :=
    .malloc (by decide) (fun _ _ _ => by decide +kernel) (returns_heapAfter (by decide +kernel))
  have second : Step ⟨oneServed, [(4128, 8)]⟩ (.malloc 8 4176)
      ⟨twoServed, [(4176, 8), (4128, 8)]⟩ :=
    .malloc (by decide) (fun _ _ _ => by decide +kernel) (returns_heapAfter (by decide +kernel))
  exact (Run.start.next first).next second

/-- The sample program runs from the empty process to a heap without live blocks. -/
theorem sample_run : Run Step ⟨emptyProcess, []⟩ sampleTrace
    ⟨free (free twoServed 4176) 4128, []⟩ := by
  have third : Step ⟨twoServed, [(4176, 8), (4128, 8)]⟩ (.free 4176)
      ⟨free twoServed 4176, [(4128, 8)]⟩ := .free (.inr (by decide))
  have fourth : Step ⟨free twoServed 4176, [(4128, 8)]⟩ (.free 4128)
      ⟨free (free twoServed 4176) 4128, []⟩ := .free (.inr (by decide))
  exact (sample_serves.next third).next fourth

/--
The heap from its start to the break is tiled by blocks, each with its header and its tag, and the
tag of every block equals the size in its header.
-/
def Tiled (h : Heap) : Prop :=
  ∃ blocks, Layout h blocks ∧
    (h.start ≠ null → Tiles Block.addr Block.stop h.start blocks h.brk) ∧
    ∀ block ∈ blocks, h.size block.addr = block.size ∧
      h.tag (block.addr + structSize + h.size block.addr) = h.size block.addr

/-- After any calls of a program the heap is tiled. -/
theorem heap_tiled (fresh : Fresh h) (run : Run Step ⟨h, []⟩ trace client) :
    Tiled client.heap := by
  obtain ⟨blocks, list, consistent⟩ := consistent_of_run fresh run
  refine ⟨blocks, consistent.rep.toLayout, fun started => ?_, fun block member => ?_⟩
  · have base : client.heap.base = client.heap.start := if_neg started
    rw [← base]
    exact consistent.rep.tiles
  · -- Header and tag of a stored block hold the same size.
    have stored := consistent.rep.stored block member
    rw [Heap.size, stored.size]
    exact ⟨rfl, stored.tag⟩

theorem heap_tiled_sample : Tiled (free (free twoServed 4176) 4128) :=
  heap_tiled emptyProcess_fresh sample_run

/-- The break moves only for a request that no free block can hold. -/
theorem Effect.full_of_grows (effect : Effect h given requested blocks blocks' brk')
    (grows : brk' ≠ h.brk) : ∀ block ∈ blocks, block.free = true → block.size < requested := by
  -- Of the ways to serve a request, only growing moves the break.
  have full : ∀ {size chosen served middle}, Served size chosen blocks h.brk served middle brk' →
      ∀ block ∈ blocks, block.free = true → block.size < size := fun serves => by
    cases serves with
    | reuse => exact absurd rfl grows
    | split => exact absurd rfl grows
    | grow _ _ full => exact full
  cases effect with
  | idle => exact absurd rfl grows
  | release => exact absurd rfl grows
  | trim => exact absurd rfl grows
  | serve _ _ serves => exact full serves
  | move _ _ _ _ serves _ => exact full serves

/--
The walk from `head` is a doubly linked list of exactly the free blocks, each once; the search
ends on it, and the break moves only when no free block is large enough.
-/
def ListExact (client : Client) : Prop :=
  ∃ blocks list, Layout client.heap blocks ∧ FreeLinks client.heap list ∧ list.Nodup ∧
    (∀ node ∈ list, node ≠ null) ∧
    (∀ node, node ∈ list ↔ ∃ block ∈ blocks, block.addr = node ∧ client.heap.free node = 1) ∧
    (∀ size fuel, list.length < fuel →
      ∃ found, findFreeGetAddr fuel client.heap size = some found) ∧
    (∀ size fuel, findFreeGetAddr fuel client.heap size = some null →
      ∀ block ∈ blocks, client.heap.free block.addr = 1 → block.size < size) ∧
    ∀ event after, Step client event after → after.heap.brk ≠ client.heap.brk →
      ∀ block ∈ blocks, client.heap.free block.addr = 1 → block.size < event.requested

/-- After any calls of a program the free list is exact. -/
theorem free_list_exact (fresh : Fresh h) (run : Run Step ⟨h, []⟩ trace client) :
    ListExact client := by
  obtain ⟨blocks, list, consistent⟩ := consistent_of_run fresh run
  have rep := consistent.rep
  -- The flag in memory is the flag of the block.
  have flag : ∀ block ∈ blocks, client.heap.free block.addr = 1 ↔ block.free = true :=
    fun block member => by
    rw [Heap.free, (rep.stored block member).flag]
    cases block.free <;> decide
  refine ⟨blocks, list, rep.toLayout, rep.links, rep.distinct, fun node => rep.nodes.nonnull,
    fun node => ?_, fun size fuel => findFreeGetAddr_total rep,
    fun size fuel absent block member isFree => ?_,
    fun event after step grows block member isFree => ?_⟩
  · rw [rep.exactly node]
    refine exists_congr fun block => and_congr_right fun member => and_congr_right fun place => ?_
    rw [← place]
    exact (flag block member).symm
  · rcases findFreeGetAddr_spec rep absent with ⟨_, full⟩ | ⟨_, _, _, _, _, _, _, _, _, _, nonnull⟩
    · exact full block member ((flag block member).mp isFree)
    · exact absurd rfl nonnull
  · obtain ⟨_, _, _, effect, _⟩ := consistent.step step
    exact effect.full_of_grows grows block member ((flag block member).mp isFree)

theorem free_list_exact_sample : ListExact ⟨free (free twoServed 4176) 4128, []⟩ :=
  free_list_exact emptyProcess_fresh sample_run

/-- How many payload bytes stand behind a pointer. -/
def payloadSize (h : Heap) (pointer : Nat) : Nat := h.size (wrapSub pointer structSize)

/-- The byte at an address after the writes of a run, where `old` was before. -/
def lastWritten (trace : List (Transition Client Event)) (address : Nat) (old : UInt8) : UInt8 :=
  trace.foldl (fun byte taken => taken.action.leaves address byte) old

/-- The header of a block holds the size of its payload. -/
theorem payloadSize_eq (rep : Represents h blocks list) (member : block ∈ blocks) :
    payloadSize h block.payload = block.size := by
  unfold payloadSize
  rw [(rep.header_of_payload member).1, Heap.size, (rep.stored block member).size]

/-- A live block that no step is given keeps its place, its size, and the bytes of its owner. -/
theorem Consistent.kept_over (consistent : Consistent client blocks list)
    (run : Run Step client later final) (member : block ∈ blocks) (live : block.free = false)
    (others : ∀ taken ∈ later, taken.action.given ≠ block.payload) :
    ∃ blocks' list', Consistent final blocks' list' ∧ block ∈ blocks' ∧
      ∀ address, block.payload ≤ address → address < block.payload + block.size →
        final.heap.mem address = lastWritten later address (client.heap.mem address) := by
  -- The statement is carried along the run, one step at a time.
  revert others
  refine @Run.history _ _ _ _ _ _ (fun taken state =>
    (∀ step ∈ taken, step.action.given ≠ block.payload) → ∃ blocks' list',
      Consistent state blocks' list' ∧ block ∈ blocks' ∧
      ∀ address, block.payload ≤ address → address < block.payload + block.size →
        state.heap.mem address = lastWritten taken address (client.heap.mem address)) run ?_ ?_
  · exact fun _ => ⟨blocks, list, consistent, member, fun _ _ _ => rfl⟩
  · intro taken before event after past step others
    obtain ⟨middle, middleList, reached, inMiddle, bytes⟩ :=
      past fun earlier inTaken => others earlier (List.mem_append_left _ inTaken)
    have different := others ⟨before, event, after⟩ (by simp)
    obtain ⟨blocks', list', next, _, keeps⟩ := reached.step step
    -- One more step is not given the pointer either, so the block stays with its bytes.
    obtain ⟨remains, same⟩ := keeps block inMiddle live different.symm
    refine ⟨blocks', list', next, remains, fun address above below => ?_⟩
    rw [same address above below, bytes address above below]
    simp [lastWritten]

/--
Live allocations are isolated: their payloads lie apart, inside the heap, and outside all headers
and tags; and over any further run that is not given a pointer, its payload holds what its owner
wrote last.
-/
def Isolated (client : Client) : Prop :=
  (held client.live).Nodup ∧
  (∀ pointer ∈ held client.live, client.heap.start ≤ pointer ∧
    pointer + payloadSize client.heap pointer ≤ client.heap.brk) ∧
  (∀ allocation ∈ client.live, allocation.2 ≤ payloadSize client.heap allocation.1) ∧
  (∀ pointer ∈ held client.live, ∀ other ∈ held client.live, pointer ≠ other →
    pointer + payloadSize client.heap pointer ≤ other ∨
      other + payloadSize client.heap other ≤ pointer) ∧
  (∃ blocks, Layout client.heap blocks ∧ ∀ pointer ∈ held client.live, ∀ block ∈ blocks,
    (pointer + payloadSize client.heap pointer ≤ block.addr ∨
      block.addr + structSize ≤ pointer) ∧
    (pointer + payloadSize client.heap pointer ≤ block.tagAddr ∨
      block.tagAddr + dataSizeSize ≤ pointer)) ∧
  ∀ later final, Run Step client later final → ∀ pointer ∈ held client.live,
    (∀ taken ∈ later, taken.action.given ≠ pointer) →
    pointer ∈ held final.live ∧
    payloadSize final.heap pointer = payloadSize client.heap pointer ∧
    ∀ address, pointer ≤ address → address < pointer + payloadSize client.heap pointer →
      final.heap.mem address = lastWritten later address (client.heap.mem address)

/-- In every run of a program its live allocations are isolated. -/
theorem live_isolated (fresh : Fresh h) (run : Run Step ⟨h, []⟩ trace client) :
    Isolated client := by
  obtain ⟨blocks, list, consistent⟩ := consistent_of_run fresh run
  have rep := consistent.rep
  -- Every held pointer is the payload of a live block, whose size the header tells.
  have owner : ∀ pointer ∈ held client.live, ∃ block ∈ blocks, block.free = false ∧
      block.payload = pointer ∧ payloadSize client.heap pointer = block.size :=
    fun pointer member => by
    obtain ⟨block, inside, live, rfl⟩ := consistent.owns.block_of_held member
    exact ⟨block, inside, live, rfl, payloadSize_eq rep inside⟩
  refine ⟨consistent.owns.distinct, fun pointer member => ?_, fun allocation member => ?_,
    fun pointer member other second differs => ?_,
    ⟨blocks, rep.toLayout, fun pointer member block inBlocks => ?_⟩,
    fun later final further pointer member others => ?_⟩
  · obtain ⟨block, inside, _, rfl, size⟩ := owner pointer member
    have bounds := rep.bounds inside
    rw [rep.start_eq inside, size]
    simp only [Block.stop, Block.payload] at bounds ⊢
    omega
  · obtain ⟨block, inside, _, payload, large⟩ := consistent.owns.owners allocation member
    rw [← payload, payloadSize_eq rep inside]
    exact large
  · obtain ⟨block, inside, _, rfl, size⟩ := owner pointer member
    obtain ⟨block', inside', _, rfl, size'⟩ := owner other second
    -- Different pointers belong to different blocks, which lie apart.
    have apart := (rep.apart inside inside').resolve_left fun same => differs (by rw [same])
    rw [size, size']
    simp only [Block.stop, Block.payload] at apart ⊢
    omega
  · obtain ⟨mine, inside, _, rfl, size⟩ := owner pointer member
    -- Header and tag of the own block lie around the payload; other blocks lie apart.
    have apart := rep.apart inside inBlocks
    rw [size]
    simp only [Block.stop, Block.payload, Block.tagAddr, structSize, dataSizeSize] at apart ⊢
    rcases apart with rfl | away <;> omega
  · obtain ⟨block, inside, live, rfl, size⟩ := owner pointer member
    -- Over any further run the block stays where it is.
    obtain ⟨blocks', list', reached, remains, bytes⟩ :=
      consistent.kept_over further inside live others
    rw [payloadSize_eq reached.rep remains, size]
    exact ⟨reached.owns.used block remains live, rfl, bytes⟩

theorem live_isolated_sample : Isolated ⟨twoServed, [(4176, 8), (4128, 8)]⟩ :=
  live_isolated emptyProcess_fresh sample_serves

end SystemProgramming.Malloc
