import SystemProgramming.Malloc.Reallocation

/-! Requests near the end of the address space: what their sums become in 64 bits. -/

namespace SystemProgramming.Malloc

open Foundations

variable {h h' g : Heap} {client : Client} {trace : List (Transition Client Event)}
  {blocks blocks' : List Block} {list : List Nat} {block : Block}
  {node size num found place brk' fuel : Nat}

@[simp] theorem begun_brk : (begun h).brk = h.brk := by unfold begun; split <;> rfl
@[simp] theorem begun_floor : (begun h).floor = h.floor := by unfold begun; split <;> rfl
@[simp] theorem begun_limit : (begun h).limit = h.limit := by unfold begun; split <;> rfl
@[simp] theorem begun_mem : (begun h).mem = h.mem := by unfold begun; split <;> rfl
@[simp] theorem begun_head : (begun h).head = h.head := by unfold begun; split <;> rfl

/-- Recording the start does not change what the search finds. -/
@[simp] theorem findFreeGetAddr_begun :
    findFreeGetAddr fuel (begun h) size = findFreeGetAddr fuel h size := by
  unfold findFreeGetAddr
  rw [begun_head, findFreeLoop_congr begun_mem]

/-- How many bytes `expand_heap` asks for. -/
def totalSize (size : Nat) : Nat := wrap (structSize + size + dataSizeSize)

/--
Where the break goes for a block of `size` bytes, by the break that was there and the range of the
kernel. Where it goes nowhere, the kernel refuses.
-/
inductive Moved (brk floor limit size : Nat) : Nat → Prop
  /-- A sum that is a positive number moves it up behind the block. -/
  | grows (small : size + 40 < 2 ^ 63) (room : brk + 40 + size ≤ limit) :
      Moved brk floor limit size (brk + 40 + size)
  /-- A sum that wraps asks for less than one header and one tag. -/
  | wraps (beyond : 2 ^ 64 ≤ size + 40) (room : brk + (size + 40 - 2 ^ 64) ≤ limit) :
      Moved brk floor limit size (brk + (size + 40 - 2 ^ 64))
  /-- A sum in the upper half is a negative number. -/
  | sinks (large : 2 ^ 63 ≤ size + 40) (under : size + 40 < 2 ^ 64)
      (room : floor + (2 ^ 64 - (size + 40)) ≤ brk) :
      Moved brk floor limit size (brk - (2 ^ 64 - (size + 40)))

/-- Where the break of a heap goes. -/
abbrev Heap.Moves (h : Heap) (size brk' : Nat) : Prop := Moved h.brk h.floor h.limit size brk'

/-- The break reads like a failure, and the kernel clears nothing there for this size. -/
def Refused (h : Heap) (size : Nat) : Prop :=
  h.mem.load h.brk 4 = 2 ^ 32 - 1 ∧ (size + 40 = 2 ^ 64 ∨
    2 ^ 63 ≤ size + 40 ∧ size + 40 < 2 ^ 64 ∧ h.floor + (2 ^ 64 - (size + 40)) ≤ h.brk)

/-- The first word of memory that the kernel just cleared is not the one of a failure. -/
theorem cleared_word {width : Nat} (positive : 0 < width) :
    (h.mem.fill place width 0).load place 4 ≠ 2 ^ 32 - 1 := by
  have first : h.mem.fill place width 0 place = 0 :=
    Memory.fill_of_inside (Nat.le_refl _) (by omega)
  rw [Memory.load, first]
  intro reads
  -- The lowest byte of the word is zero.
  have low : (0 : UInt8).toNat = 0 := rfl
  omega

/-- Clearing no bytes changes no memory. -/
theorem fill_nothing (memory : Memory) {byte : UInt8} : memory.fill place 0 byte = memory := by
  funext address
  exact Memory.fill_of_outside (by omega)

/-- A sum that fits in 64 bits is asked for as it is. -/
theorem totalSize_of_lt (under : size + 40 < 2 ^ 64) : totalSize size = size + 40 := by
  simp only [totalSize, wrap, structSize, dataSizeSize]
  omega

/-- Of a sum that does not fit, only the rest is asked for. -/
theorem totalSize_of_le (beyond : 2 ^ 64 ≤ size + 40) (fits : size < 2 ^ 64) :
    totalSize size = size + 40 - 2 ^ 64 := by
  simp only [totalSize, wrap, structSize, dataSizeSize]
  omega

/-- Where the break moves, the kernel returns the old one, and what it read like decides. -/
theorem sbrk_moved (fits : size < 2 ^ 64) (moves : h.Moves size brk') :
    ∃ g, sbrk h (totalSize size) = (h.brk, g) ∧ g.brk = brk' ∧ g.head = h.head ∧
      (g.mem.load h.brk 4 = 2 ^ 32 - 1 ↔ Refused h size) ∧ (Refused h size → g.mem = h.mem) := by
  cases moves with
  | grows small room =>
    rw [totalSize_of_lt (by omega), sbrk, if_pos small, if_pos (by omega)]
    have unlike : ¬ Refused h size := fun refused => by
      have := refused.2
      omega
    have brk : h.brk + (size + 40) = h.brk + 40 + size := by omega
    exact ⟨_, rfl, brk, rfl, iff_of_false (cleared_word (by omega)) unlike,
      fun refused => absurd refused unlike⟩
  | wraps beyond room =>
    rw [totalSize_of_le beyond fits, sbrk, if_pos (by omega), if_pos room]
    refine ⟨_, rfl, rfl, rfl, ?_⟩
    by_cases exact : size + 40 = 2 ^ 64
    · -- Nothing is cleared, so the old bytes are read.
      simp only [Refused, exact, Nat.sub_self, fill_nothing, true_or, and_true, implies_true]
    · have unlike : ¬ Refused h size := fun refused => by
        have := refused.2
        omega
      exact ⟨iff_of_false (cleared_word (by omega)) unlike, fun refused => absurd refused unlike⟩
  | sinks large under room =>
    rw [totalSize_of_lt under, sbrk, if_neg (Nat.not_lt.mpr large), if_pos room]
    exact ⟨_, rfl, rfl, rfl, ⟨fun reads => ⟨reads, .inr ⟨large, under, room⟩⟩, And.left⟩,
      fun _ => rfl⟩

/-- Where the break goes nowhere, the kernel refuses. -/
theorem sbrk_stays (fits : size < 2 ^ 64) (stays : ∀ brk', ¬ h.Moves size brk') :
    sbrk h (totalSize size) = (sbrkFailed, h) := by
  by_cases beyond : 2 ^ 64 ≤ size + 40
  · rw [totalSize_of_le beyond fits, sbrk, if_pos (by omega),
      if_neg fun room => stays _ (.wraps beyond room)]
  · have under := Nat.not_le.mp beyond
    rw [totalSize_of_lt under, sbrk]
    by_cases small : size + 40 < 2 ^ 63
    · rw [if_pos small, if_neg fun room => stays _ (.grows small (by omega))]
    · -- The sum is read as a negative number.
      rw [if_neg small, if_neg fun room => stays _ (.sinks (Nat.not_lt.mp small) under room)]

/-- A request that the bytes refuse does move the break. -/
theorem Refused.moves (refused : Refused h size) (high : h.brk ≤ h.limit) :
    ∃ brk', h.Moves size brk' := by
  rcases refused.2 with exact | ⟨large, under, room⟩
  · exact ⟨_, .wraps (by omega) (by omega)⟩
  · exact ⟨_, .sinks large under room⟩

/-- Removing a node leaves the process as it is. -/
theorem deleteDataNode_process : SameProcess h (deleteDataNode h node) := by
  unfold deleteDataNode
  split_ifs <;> exact ⟨rfl, rfl, rfl, rfl⟩

/-- Where no free block is large enough, `malloc` returns what the kernel answers. -/
theorem malloc_grown (positive : size ≠ 0) (searched : findFreeGetAddr fuel h size = some null)
    (answered : sbrk (begun h) (totalSize size) = (place, g)) (nonnull : place ≠ null) :
    ∃ h', h'.brk = g.brk ∧ (g.mem.load place 4 = 2 ^ 32 - 1 → h' = g) ∧
      malloc fuel h size = some (if g.mem.load place 4 = 2 ^ 32 - 1 then null
        else wrap (place + structSize), h') := by
  rw [← findFreeGetAddr_begun] at searched
  unfold totalSize at answered
  rw [malloc_eq positive searched, if_pos rfl]
  by_cases refused : g.mem.load place 4 = 2 ^ 32 - 1
  · -- The first word of the new memory is taken for the failure.
    have expanded : expandHeap (begun h) size = (null, g) := by
      simp only [expandHeap, answered, if_pos refused]
    rw [expanded]
    exact ⟨g, rfl, fun _ => rfl, by rw [if_pos rfl, if_pos refused]⟩
  · have first : (expandHeap (begun h) size).1 = place := by
      simp only [expandHeap, answered, if_neg refused]
    have brk : (expandHeap (begun h) size).2.brk = g.brk := by
      simp only [expandHeap, answered, if_neg refused, Heap.setTag_brk]
      split <;> rfl
    rw [first, if_neg nonnull, if_neg refused]
    refine ⟨_, ?_, fun again => absurd again refused, rfl⟩
    rw [deleteDataNode_process.brk, brk]

/-- Of requests too large for a positive sum, no free block holds any. -/
theorem Represents.small_of_found (rep : Represents h blocks list)
    (searched : findFreeGetAddr fuel h size = some found) (present : found ≠ null) :
    size + 40 < 2 ^ 63 := by
  rcases findFreeGetAddr_spec rep searched with ⟨absent, _⟩ |
    ⟨front, back, block, _, _, rfl, _, _, large, _, _⟩
  · exact absurd absent present
  · -- The block that was found lies below the break, and the break in the lower half.
    have bounds := rep.bounds (show block ∈ front ++ block :: back by simp)
    have low := rep.low
    have high := rep.high
    have limit := rep.limit
    simp only [Block.stop] at bounds
    omega

/-- A request that found a free block needs nothing from the kernel. -/
theorem Represents.granted_of_found (rep : Represents h blocks list)
    (searched : findFreeGetAddr fuel h size = some found) (present : found ≠ null) :
    Granted h size := fun _ _ again => absurd (findFreeGetAddr_unique rep searched again) present

/-- The request ends in a read through the pointer `(void*)-1`, which is no memory. -/
def Crashes (fuel : Nat) (h : Heap) (size : Nat) : Prop :=
  size ≠ 0 ∧ findFreeGetAddr fuel h size = some null ∧
    (sbrk (begun h) (totalSize size)).1 = sbrkFailed

/-- How a request ends for which no free block is large enough. -/
inductive Grown (fuel : Nat) (h : Heap) (size : Nat) : Prop
  /-- The kernel refuses, and the read through its answer ends the process. -/
  | crashed (crashes : Crashes fuel h size) (stays : ∀ brk', ¬ h.Moves size brk')
  /-- The kernel moves the break, but the word there reads like a failure. -/
  | refused {h' : Heap} (alive : ¬ Crashes fuel h size) (refused : Refused h size)
      (moves : h.Moves size h'.brk) (mem : h'.mem = h.mem) (head : h'.head = h.head)
      (returns : malloc fuel h size = some (null, h'))
  /-- The kernel moves the break, and a block is put where it was. -/
  | grew {h' : Heap} (alive : ¬ Crashes fuel h size) (unlike : ¬ Refused h size)
      (moves : h.Moves size h'.brk) (returns : malloc fuel h size = some (h.brk + 32, h'))

/-- A request for which no free block is large enough ends in one of these ways. -/
theorem Represents.grown (rep : Represents h blocks list) (positive : size ≠ 0)
    (fits : size < 2 ^ 64) (searched : findFreeGetAddr fuel h size = some null) :
    Grown fuel h size := by
  have high := rep.high
  have limit := rep.limit
  have low := rep.low
  have above := rep.tiles.le
  have same : Refused (begun h) size ↔ Refused h size := by
    simp only [Refused, begun_mem, begun_brk, begun_floor]
  have goes : ∀ brk', (begun h).Moves size brk' ↔ h.Moves size brk' := fun brk' => by
    simp only [Heap.Moves, begun_brk, begun_floor, begun_limit]
  -- The kernel moves the break, or the failed call makes the program crash.
  by_cases moves : ∃ brk', h.Moves size brk'
  · obtain ⟨brk', moves⟩ := moves
    have answer := sbrk_moved fits ((goes brk').mpr moves)
    rw [begun_brk, begun_head, begun_mem, same] at answer
    obtain ⟨g, answered, rfl, head, reads, mem⟩ := answer
    have alive : ¬ Crashes fuel h size := fun crashes => by
      have failed := crashes.2.2
      rw [answered] at failed
      simp only [sbrkFailed] at failed
      omega
    have nonnull : h.brk ≠ null := by
      unfold null
      omega
    obtain ⟨h', brk, unchanged, returns⟩ := malloc_grown positive searched answered nonnull
    by_cases refused : Refused h size
    · have word := reads.mpr refused
      rw [if_pos word, unchanged word] at returns
      exact .refused alive refused moves (mem refused) head returns
    · have payload : wrap (h.brk + structSize) = h.brk + 32 :=
        wrap_of_lt (by simp only [structSize]; omega)
      rw [if_neg (mt reads.mp refused), payload] at returns
      rw [← brk] at moves
      exact .grew alive refused moves returns
  · have stays : ∀ brk', ¬ h.Moves size brk' := fun brk' there => moves ⟨brk', there⟩
    refine .crashed ⟨positive, searched, ?_⟩ stays
    rw [sbrk_stays fits fun brk' => mt (goes brk').mp (stays brk')]

/-- What `malloc` owes to a size: the bytes it returns, an upward break, and a refusal in time. -/
structure NoWrap (fuel : Nat) (h : Heap) (size : Nat) : Prop where
  /-- A pointer that is returned has all its bytes inside the heap. -/
  inside : ∀ result h', ¬ Crashes fuel h size → malloc fuel h size = some (result, h') →
    result ≠ null → h'.start ≤ result ∧ result + size ≤ h'.brk
  /-- The break does not move down. -/
  upward : ∀ result h', ¬ Crashes fuel h size → malloc fuel h size = some (result, h') →
    h.brk ≤ h'.brk
  /-- A size that leaves no room for a header and a tag is refused. -/
  refuses : 2 ^ 64 ≤ size + 40 →
    ¬ Crashes fuel h size ∧ ∃ h', malloc fuel h size = some (null, h')

/--
The sizes that the arithmetic bears: those whose sum is a positive number, those for which the
kernel cannot move the break down as far as the sum says, and the one size whose sum is zero, if
the break reads like a failure.
-/
def Bearable (h : Heap) (size : Nat) : Prop :=
  size + 40 < 2 ^ 63 ∨
    (size + 40 < 2 ^ 64 ∧ h.brk < h.floor + (2 ^ 64 - (size + 40))) ∨
    (size + 40 = 2 ^ 64 ∧ h.mem.load h.brk 4 = 2 ^ 32 - 1)

/-- A request that is granted is served inside the heap. -/
theorem Represents.noWrap_of_granted (rep : Represents h blocks list) (positive : size ≠ 0)
    (fits : size + 40 < 2 ^ 64) (granted : Granted h size) : NoWrap fuel h size := by
  have served : ∀ result h', malloc fuel h size = some (result, h') →
      (h'.start ≤ result ∧ result + size ≤ h'.brk) ∧ h.brk ≤ h'.brk := by
    intro result h' returns
    obtain ⟨_, served, blocks', _, _, serves, rfl, rep', started, _⟩ :=
      malloc_spec rep positive (by omega) granted returns
    obtain ⟨member, _, large⟩ := serves.result
    have bounds := rep'.bounds member
    have base : h'.base = h'.start := if_neg started
    simp only [Block.stop, base] at bounds
    refine ⟨⟨by simp only [Block.payload]; omega, by simp only [Block.payload]; omega⟩, ?_⟩
    -- Only growing moves the break, and it moves up.
    generalize h.brk = brk at serves
    generalize h'.brk = brk' at serves
    cases serves with
    | reuse => exact Nat.le_refl _
    | split => exact Nat.le_refl _
    | grow => omega
  exact ⟨fun result h' _ returns _ => (served result h' returns).1,
    fun result h' _ returns => (served result h' returns).2, fun beyond => by omega⟩

/-- A request that crashes returns nothing, so only a size without room is owed more. -/
theorem Crashes.noWrap_iff (crashes : Crashes fuel h size) :
    NoWrap fuel h size ↔ size + 40 < 2 ^ 64 := by
  constructor
  · intro keeps
    by_contra beyond
    exact (keeps.refuses (Nat.not_lt.mp beyond)).1 crashes
  · exact fun under => ⟨fun _ _ alive => absurd crashes alive, fun _ _ alive => absurd crashes alive,
      fun beyond => absurd under (Nat.not_lt.mpr beyond)⟩

/-- A request that moves the break down is one that neither side allows. -/
theorem noWrap_iff_of_sinks {h' : Heap} {result : Nat} (large : 2 ^ 63 ≤ size + 40)
    (under : size + 40 < 2 ^ 64) (room : h.floor + (2 ^ 64 - (size + 40)) ≤ h.brk)
    (lower : h'.brk < h.brk) (alive : ¬ Crashes fuel h size)
    (returns : malloc fuel h size = some (result, h')) : NoWrap fuel h size ↔ Bearable h size := by
  refine iff_of_false (fun keeps => ?_) (fun bearable => ?_)
  · exact absurd (keeps.upward _ _ alive returns) (Nat.not_le.mpr lower)
  · unfold Bearable at bearable
    omega

/-- On a represented heap, `malloc` does right by a size exactly when the arithmetic bears it. -/
theorem Represents.noWrap_iff (rep : Represents h blocks list) (positive : size ≠ 0)
    (fits : size < 2 ^ 64) (enough : list.length < fuel) :
    NoWrap fuel h size ↔ Bearable h size := by
  have high := rep.high
  have limit := rep.limit
  have above := rep.tiles.le
  have low := rep.low
  obtain ⟨found, searched⟩ := @findFreeGetAddr_total _ _ _ size _ rep enough
  by_cases present : found = null
  · subst present
    cases rep.grown positive fits searched with
    | crashed crashes stays =>
      rw [crashes.noWrap_iff]
      -- A request that crashes is owed nothing, unless it had to be refused.
      constructor
      · intro under
        by_cases small : size + 40 < 2 ^ 63
        · exact .inl small
        · refine .inr (.inl ⟨under, Nat.not_le.mp fun room => ?_⟩)
          exact stays _ (.sinks (Nat.not_lt.mp small) under room)
      · intro bearable
        rcases bearable with small | ⟨under, _⟩ | ⟨exact, word⟩
        · exact Nat.lt_trans small (by decide)
        · exact under
        · exact absurd (Moved.wraps (by omega) (by omega)) (stays _)
    | @refused h' alive refused moves mem head returns =>
      generalize last : h'.brk = brk' at moves
      cases moves with
      | grows small room =>
        have := refused.2
        omega
      | wraps beyond room =>
        -- The sum is zero, so the break stays and the request is refused in time.
        have exact : size + 40 = 2 ^ 64 := refused.2.resolve_right (by omega)
        refine iff_of_true ⟨?_, ?_, fun _ => ⟨alive, h', returns⟩⟩ (.inr (.inr ⟨exact, refused.1⟩))
        · intro result g _ again nonnull
          rw [returns] at again
          exact absurd (Prod.mk.inj (Option.some.inj again)).1.symm nonnull
        · intro result g _ again
          rw [returns] at again
          obtain ⟨_, rfl⟩ := Prod.mk.inj (Option.some.inj again)
          omega
      | sinks large under room =>
        exact noWrap_iff_of_sinks large under room (by omega) alive returns
    | @grew h' alive unlike moves returns =>
      generalize last : h'.brk = brk' at moves
      cases moves with
      | grows small room =>
        -- The kernel has room for the whole block, so this is a request that is granted.
        exact iff_of_true (rep.noWrap_of_granted positive (by omega) fun _ _ _ => room) (.inl small)
      | wraps beyond room =>
        refine iff_of_false (fun keeps => ?_) (fun bearable => ?_)
        · obtain ⟨_, g, again⟩ := keeps.refuses beyond
          rw [returns] at again
          have := (Prod.mk.inj (Option.some.inj again)).1
          unfold null at this
          omega
        · rcases bearable with small | ⟨under, _⟩ | ⟨exact, word⟩
          · omega
          · omega
          · exact unlike ⟨word, .inl exact⟩
      | sinks large under room =>
        exact noWrap_iff_of_sinks large under room (by omega) alive returns
  · -- A block that is there is smaller than half of the address space.
    have small := rep.small_of_found searched present
    exact iff_of_true (rep.noWrap_of_granted positive (by omega)
      (rep.granted_of_found searched present)) (.inl small)

/--
In every heap that a program reaches, `malloc` returns for every size, and does right by exactly
the sizes that the arithmetic bears.
-/
theorem no_wrap_iff (fresh : Fresh h) (run : Run Step ⟨h, []⟩ trace client) :
    ∃ bound, ∀ size, size ≠ 0 → size < 2 ^ 64 → ∀ fuel, bound < fuel →
      (∃ result h', malloc fuel client.heap size = some (result, h')) ∧
      (NoWrap fuel client.heap size ↔ Bearable client.heap size) := by
  obtain ⟨blocks, list, consistent⟩ := consistent_of_run fresh run
  refine ⟨list.length, fun size positive fits fuel enough => ⟨malloc_total consistent.rep enough, ?_⟩⟩
  exact consistent.rep.noWrap_iff positive fits enough

theorem no_wrap_iff_sample : ∃ bound, ∀ size, size ≠ 0 → size < 2 ^ 64 → ∀ fuel, bound < fuel →
    (∃ result h', malloc fuel twoServed size = some (result, h')) ∧
    (NoWrap fuel twoServed size ↔ Bearable twoServed size) :=
  no_wrap_iff emptyProcess_fresh sample_serves

/-- The largest size gets a pointer into a heap that has grown by less than a header and a tag. -/
theorem largest_size_served : Run Step ⟨emptyProcess, []⟩ [] ⟨emptyProcess, []⟩ ∧
    (∃ h', malloc 1 emptyProcess (2 ^ 64 - 1) = some (4128, h') ∧ h'.brk = 4135) ∧
    ¬ NoWrap 1 emptyProcess (2 ^ 64 - 1) := by
  have returns : malloc 1 emptyProcess (2 ^ 64 - 1) =
      some (4128, heapAfter emptyProcess (malloc 1 emptyProcess (2 ^ 64 - 1))) :=
    returns_heapAfter (by decide +kernel)
  refine ⟨.start, ⟨_, returns, by decide +kernel⟩, fun keeps => ?_⟩
  obtain ⟨_, h', again⟩ := keeps.refuses (by decide)
  rw [returns] at again
  exact absurd (Prod.mk.inj (Option.some.inj again)).1 (by decide)

/-- `calloc` clears what `malloc` returned, unless that is null. -/
theorem calloc_eq (returns : malloc fuel h (wrap (num * size)) = some (place, g)) :
    calloc fuel h num size = some (place, if place = null then g
      else { g with mem := g.mem.fill place (wrap (num * size)) 0 }) := by
  simp only [calloc, returns]
  split <;> rename_i absent
  · rw [absent]
  · rfl

/-- What `calloc` owes to a product: a block of that many zero bytes, or nothing at all. -/
structure SizeLaw (fuel : Nat) (h : Heap) (num size : Nat) : Prop where
  /-- The call comes back. -/
  alive : ¬ Crashes fuel h (wrap (num * size))
  /-- A pointer that is returned has a block with room for the whole product, all of it zero. -/
  served : ∀ result h', calloc fuel h num size = some (result, h') → result ≠ null →
    (∃ blocks, Layout h' blocks ∧ ∃ block ∈ blocks, block.free = false ∧
      block.payload = result ∧ num * size ≤ block.size) ∧
    ∀ offset, offset < num * size → h'.mem (result + offset) = 0
  /-- Without a pointer nothing is written and nothing leaves the free list. -/
  absent : ∀ h', calloc fuel h num size = some (null, h') → h'.mem = h.mem ∧ h'.head = h.head

/-- The block behind a pointer has room for a size only if the heap reaches that far. -/
theorem Layout.room {pointer : Nat} (layout : Layout h blocks) (member : block ∈ blocks)
    (payload : block.payload = pointer) (large : size ≤ block.size) :
    pointer + size + 8 ≤ h.brk ∧ size < 2 ^ 64 := by
  have bounds := layout.tiles.bounds member
  have stored := (layout.stored block member).size
  have bound := h.get_lt .size block.addr
  simp only [Block.stop, Block.payload] at bounds payload
  omega

/-- A product that is granted gets its block of zero bytes. -/
theorem Represents.sizeLaw_of_granted (rep : Represents h blocks list) (positive : num * size ≠ 0)
    (fits : num * size < 2 ^ 64) (granted : Granted h (num * size))
    (alive : ¬ Crashes fuel h (num * size)) : SizeLaw fuel h num size := by
  have served : ∀ result h', calloc fuel h num size = some (result, h') →
      result ≠ null ∧ (∃ blocks, Layout h' blocks ∧ ∃ block ∈ blocks, block.free = false ∧
        block.payload = result ∧ num * size ≤ block.size) ∧
      ∀ offset, offset < num * size → h'.mem (result + offset) = 0 := by
    intro result h' returns
    obtain ⟨_, served, blocks', _, _, serves, rfl, rep', _, _, zero⟩ :=
      calloc_spec rep positive fits granted returns
    obtain ⟨member, live, large⟩ := serves.result
    exact ⟨Nat.succ_ne_zero _, ⟨blocks', rep'.toLayout, served, member, live, rfl, large⟩,
      fun offset below => zero _ (Nat.le_add_right _ _) (Nat.add_lt_add_left below _)⟩
  refine ⟨by rwa [wrap_of_lt fits], fun result h' returns _ => (served result h' returns).2, ?_⟩
  exact fun h' returns => absurd rfl (served null h' returns).1

/-- A pointer that `malloc` returned has room for the product, or the law is broken. -/
theorem SizeLaw.room (law : SizeLaw fuel h num size)
    (returns : malloc fuel h (wrap (num * size)) = some (place, g)) (nonnull : place ≠ null) :
    place + num * size + 8 ≤ g.brk ∧ num * size < 2 ^ 64 := by
  have cleared := calloc_eq returns
  rw [if_neg nonnull] at cleared
  obtain ⟨⟨_, layout, _, member, _, payload, large⟩, _⟩ := law.served _ _ cleared nonnull
  exact layout.room member payload large

/-- A call that returns no pointer keeps the law if the heap is as it was. -/
theorem SizeLaw.of_null {g : Heap} (alive : ¬ Crashes fuel h (wrap (num * size)))
    (returns : malloc fuel h (wrap (num * size)) = some (null, g)) (mem : g.mem = h.mem)
    (head : g.head = h.head) : SizeLaw fuel h num size := by
  have cleared := calloc_eq returns
  rw [if_pos rfl] at cleared
  refine ⟨alive, fun result h' again nonnull => ?_, fun h' again => ?_⟩
  · rw [cleared] at again
    exact absurd (Prod.mk.inj (Option.some.inj again)).1.symm nonnull
  · rw [cleared] at again
    obtain ⟨_, rfl⟩ := Prod.mk.inj (Option.some.inj again)
    exact ⟨mem, head⟩

/-- The products for which `calloc` keeps its law. -/
def Multiplies (h : Heap) (num size : Nat) : Prop :=
  wrap (num * size) = 0 ∨ (num * size < 2 ^ 64 ∧ Granted h (num * size)) ∨
    Refused h (wrap (num * size))

/-- Where a free block is served, the law is kept by the products that a `size_t` can hold. -/
theorem Represents.sizeLaw_iff_of_found (rep : Represents h blocks list)
    (enough : list.length < fuel) (zero : wrap (num * size) ≠ 0)
    (searched : findFreeGetAddr fuel h (wrap (num * size)) = some found) (present : found ≠ null) :
    SizeLaw fuel h num size ↔ Multiplies h num size := by
  have alive : ¬ Crashes fuel h (wrap (num * size)) := fun crashes =>
    present (findFreeGetAddr_unique rep searched crashes.2.1)
  have granted := rep.granted_of_found searched present
  have lower := rep.small_of_found searched present
  have fits : wrap (num * size) < 2 ^ 64 := Nat.mod_lt _ (by decide)
  by_cases whole : num * size < 2 ^ 64
  · have same := wrap_of_lt whole
    rw [same] at alive granted zero
    exact iff_of_true (rep.sizeLaw_of_granted zero whole granted alive) (.inr (.inl ⟨whole, granted⟩))
  · -- A block of the heap is served that cannot be as large as the product.
    refine iff_of_false (fun law => ?_) (fun multiplies => ?_)
    · obtain ⟨result, g, returns⟩ := @malloc_total _ _ _ (wrap (num * size)) _ rep enough
      obtain ⟨_, served, _, _, _, _, place, _⟩ := malloc_spec rep zero fits granted returns
      exact whole (law.room returns (place ▸ Nat.succ_ne_zero _)).2
    · rcases multiplies with none | both | refused
      · exact zero none
      · exact whole both.1
      · have := refused.2
        omega

/-- On a represented heap, `calloc` keeps its law for exactly these products. -/
theorem Represents.sizeLaw_iff (rep : Represents h blocks list) (enough : list.length < fuel) :
    SizeLaw fuel h num size ↔ Multiplies h num size := by
  have high := rep.high
  have limit := rep.limit
  have above := rep.tiles.le
  have low := rep.low
  have fits : wrap (num * size) < 2 ^ 64 := Nat.mod_lt _ (by decide)
  have part : wrap (num * size) ≤ num * size := Nat.mod_le _ _
  by_cases zero : wrap (num * size) = 0
  · -- No bytes are asked for, so nothing happens.
    have returns : malloc fuel h (wrap (num * size)) = some (null, begun h) := by
      rw [zero, malloc_zero]
    exact iff_of_true (.of_null (fun crashes => crashes.1 zero) returns begun_mem begun_head)
      (.inl zero)
  · obtain ⟨found, searched⟩ := @findFreeGetAddr_total _ _ _ (wrap (num * size)) _ rep enough
    by_cases present : found = null
    · subst present
      -- A product that the kernel grants lies in the lower half.
      have small : num * size < 2 ^ 64 ∧ Granted h (num * size) →
          wrap (num * size) = num * size ∧ h.brk + 40 + num * size ≤ h.limit := by
        intro both
        have same := wrap_of_lt both.1
        rw [same] at searched
        exact ⟨same, both.2 (same ▸ zero) fuel searched⟩
      cases rep.grown zero fits searched with
      | crashed crashes stays =>
        refine iff_of_false (fun law => law.alive crashes) (fun multiplies => ?_)
        rcases multiplies with none | granted | refused
        · exact zero none
        · obtain ⟨same, room⟩ := small granted
          exact stays _ (.grows (by omega) (by omega))
        · obtain ⟨_, moves⟩ := refused.moves high
          exact stays _ moves
      | @refused h' alive refused _ mem head returns =>
        exact iff_of_true (.of_null alive returns mem head) (.inr (.inr refused))
      | @grew h' alive unlike moves returns =>
        have room := fun law : SizeLaw fuel h num size => law.room returns (Nat.succ_ne_zero _)
        generalize last : h'.brk = brk' at moves
        by_cases granted : num * size < 2 ^ 64 ∧ Granted h (num * size)
        · have same := wrap_of_lt granted.1
          rw [same] at alive zero
          exact iff_of_true (rep.sizeLaw_of_granted zero granted.1 granted.2 alive)
            (.inr (.inl granted))
        · -- The block that was put there is smaller than the product.
          have broken : ¬ Multiplies h num size := fun multiplies =>
            multiplies.elim zero fun rest => rest.elim granted unlike
          refine iff_of_false (fun law => ?_) broken
          obtain ⟨reaches, whole⟩ := room law
          cases moves with
          | grows _ room =>
            have same := wrap_of_lt whole
            rw [same] at room
            exact granted ⟨whole, fun _ _ _ => room⟩
          | wraps => omega
          | sinks => omega
    · exact rep.sizeLaw_iff_of_found enough zero searched present

/--
In every heap that a program reaches, `calloc` returns for all pairs of sizes, and keeps its law
for exactly the products that are granted, that wrap to zero, or that the bytes refuse.
-/
theorem calloc_law_iff (fresh : Fresh h) (run : Run Step ⟨h, []⟩ trace client) :
    ∃ bound, ∀ num size, num < 2 ^ 64 → size < 2 ^ 64 → ∀ fuel, bound < fuel →
      (∃ result h', calloc fuel client.heap num size = some (result, h')) ∧
      (SizeLaw fuel client.heap num size ↔ Multiplies client.heap num size) := by
  obtain ⟨blocks, list, consistent⟩ := consistent_of_run fresh run
  refine ⟨list.length, fun num size _ _ fuel enough => ⟨?_, consistent.rep.sizeLaw_iff enough⟩⟩
  obtain ⟨result, h', returns⟩ := @malloc_total _ _ _ (wrap (num * size)) _ consistent.rep enough
  exact ⟨result, _, calloc_eq returns⟩

theorem calloc_law_iff_sample : ∃ bound, ∀ num size, num < 2 ^ 64 → size < 2 ^ 64 →
    ∀ fuel, bound < fuel →
      (∃ result h', calloc fuel twoServed num size = some (result, h')) ∧
      (SizeLaw fuel twoServed num size ↔ Multiplies twoServed num size) :=
  calloc_law_iff emptyProcess_fresh sample_serves

/-- A product of `2 ^ 64 + 4` gets a block of four bytes. -/
theorem short_product_served : Run Step ⟨emptyProcess, []⟩ [] ⟨emptyProcess, []⟩ ∧
    (∃ h', calloc 1 emptyProcess (2 ^ 62 + 1) 4 = some (4128, h') ∧
      Layout h' [⟨4096, 4, false⟩]) ∧ ¬ SizeLaw 1 emptyProcess (2 ^ 62 + 1) 4 := by
  have returns : calloc 1 emptyProcess (2 ^ 62 + 1) 4 =
      some (4128, heapAfter emptyProcess (calloc 1 emptyProcess (2 ^ 62 + 1) 4)) :=
    returns_heapAfter (by decide +kernel)
  refine ⟨.start, ⟨_, returns, by decide +kernel⟩, fun law => ?_⟩
  obtain ⟨⟨_, layout, _, member, _, payload, large⟩, _⟩ := law.served _ _ returns (by decide)
  -- No size of a block that is stored reaches the product.
  exact absurd (layout.room member payload large).2 (by decide)

end SystemProgramming.Malloc
