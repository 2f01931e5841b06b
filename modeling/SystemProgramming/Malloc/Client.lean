import SystemProgramming.Malloc.Resize
import SystemProgramming.Foundations.Runs

/-! Programs that use the allocator: their calls and writes, and what every step keeps. -/

namespace SystemProgramming.Malloc

open Foundations

/-- A program on the heap: each allocation it holds, as its pointer and the bytes it asked for. -/
structure Client where
  heap : Heap
  live : List (Nat × Nat)

/-- What a program does, with the pointer that the call returned. -/
inductive Event
  | malloc (size result : Nat)
  | calloc (num size result : Nat)
  | realloc (pointer size result : Nat)
  | free (pointer : Nat)
  | write (address : Nat) (byte : UInt8)
  deriving DecidableEq, Repr

namespace Event

/-- The pointer that a call is given; `malloc` and `calloc` are given none. -/
def given : Event → Nat
  | realloc pointer _ _ => pointer
  | free pointer => pointer
  | _ => null

/-- How many bytes a call asks for. -/
def requested : Event → Nat
  | malloc size _ => size
  | calloc num size _ => num * size
  | realloc _ size _ => size
  | _ => 0

/-- The byte that an event leaves at an address where `old` was. -/
def leaves (event : Event) (address : Nat) (old : UInt8) : UInt8 :=
  match event with
  | write place byte => if place = address then byte else old
  | _ => old

end Event

/-- The pointers that a program holds. -/
def held (live : List (Nat × Nat)) : List Nat := live.map Prod.fst

/-- A returned pointer is held from now on, unless it is null. -/
def record (pointer size : Nat) (live : List (Nat × Nat)) : List (Nat × Nat) :=
  if pointer = null then live else (pointer, size) :: live

/-- A pointer that was given back is no longer held. -/
def release (pointer : Nat) (live : List (Nat × Nat)) : List (Nat × Nat) :=
  live.filter fun allocation => allocation.1 ≠ pointer

/--
The steps of a program that keeps to the rules: sizes are `size_t` values whose product fits, the
kernel grants what is asked of it, only held pointers are given back, and only bytes that were
asked for are written.
-/
inductive Step : Client → Event → Client → Prop
  | malloc {client : Client} {size fuel result : Nat} {heap : Heap} (fits : size < 2 ^ 64)
      (granted : Granted client.heap size)
      (returns : Malloc.malloc fuel client.heap size = some (result, heap)) :
      Step client (.malloc size result) ⟨heap, record result size client.live⟩
  | calloc {client : Client} {num size fuel result : Nat} {heap : Heap} (numFits : num < 2 ^ 64)
      (sizeFits : size < 2 ^ 64) (fits : num * size < 2 ^ 64)
      (granted : Granted client.heap (num * size))
      (returns : Malloc.calloc fuel client.heap num size = some (result, heap)) :
      Step client (.calloc num size result) ⟨heap, record result (num * size) client.live⟩
  | realloc {client : Client} {pointer size fuel result : Nat} {heap : Heap}
      (known : pointer = null ∨ pointer ∈ held client.live) (fits : size < 2 ^ 64)
      (granted : pointer = null ∨ client.heap.size (wrapSub pointer structSize) < size →
        Granted client.heap size)
      (returns : Malloc.realloc fuel client.heap pointer size = some (result, heap)) :
      Step client (.realloc pointer size result) ⟨heap, if result = null ∧ size ≠ 0 then client.live
        else record result size (release pointer client.live)⟩
  | free {client : Client} {pointer : Nat} (known : pointer = null ∨ pointer ∈ held client.live) :
      Step client (.free pointer) ⟨Malloc.free client.heap pointer, release pointer client.live⟩
  | write {client : Client} {address : Nat} {byte : UInt8}
      (owned : ∃ allocation ∈ client.live,
        allocation.1 ≤ address ∧ address < allocation.1 + allocation.2) :
      Step client (.write address byte)
        ⟨{ client.heap with mem := Function.update client.heap.mem address byte }, client.live⟩

/-- A process that has not called the allocator yet. -/
structure Fresh (h : Heap) : Prop where
  start : h.start = null
  head : h.head = null
  guard : h.tag (h.brk - 8) = 0
  low : 40 ≤ h.brk
  high : h.brk ≤ h.limit
  limit : h.limit ≤ 2 ^ 63

/-- The held pointers are the payloads of exactly the live blocks, which are large enough. -/
structure Owns (live : List (Nat × Nat)) (blocks : List Block) : Prop where
  owners : ∀ allocation ∈ live, ∃ block ∈ blocks, block.free = false ∧
    block.payload = allocation.1 ∧ allocation.2 ≤ block.size
  used : ∀ block ∈ blocks, block.free = false → block.payload ∈ held live
  distinct : (held live).Nodup

variable {h : Heap} {live : List (Nat × Nat)} {blocks blocks' : List Block} {list : List Nat}
  {block other served kept : Block} {base brk brk' chosen size pointer : Nat}

/-- A fresh process has an empty heap. -/
theorem Fresh.represents (fresh : Fresh h) : Represents h [] [] := by
  have base : h.base = h.brk := by simp only [Heap.base, if_pos fresh.start]
  exact { tiles := by rw [base]; rfl
          stored := fun _ member => by cases member
          links := ⟨trivial, fresh.head⟩
          distinct := List.nodup_nil
          exactly := by simp
          guard := by rw [base]; exact fresh.guard
          low := by rw [base]; exact fresh.low
          high := fresh.high
          limit := fresh.limit }

/-- Serving keeps the heap tiled up to the new break. -/
theorem Served.tiles (serves : Served size chosen blocks brk served blocks' brk')
    (tiles : Tiles Block.addr Block.stop base blocks brk) :
    Tiles Block.addr Block.stop base blocks' brk' := by
  cases serves with
  | reuse front back block brk free fits tight =>
    -- A block that is handed out keeps its range.
    exact @Tiles.exchange _ _ _ _ _ front [block] [{ block with free := false }] back _ _ tiles
      (tiles_single block) (by simp) (tiles_single { block with free := false })
  | split front back block brk free room =>
    have becomes : Tiles Block.addr Block.stop block.addr [⟨block.addr, size, false⟩,
        ⟨block.addr + 40 + size, block.size - size - 40, true⟩] block.stop := by
      simp only [Tiles, Block.stop, true_and]
      omega
    exact @Tiles.exchange _ _ _ _ _ front [block] _ back _ _ tiles (tiles_single block) (by simp)
      becomes
  | grow blocks brk full =>
    have last : Tiles Block.addr Block.stop brk [⟨brk, size, false⟩] (brk + 40 + size) :=
      tiles_single ⟨brk, size, false⟩
    exact Tiles.append_iff.mpr ⟨brk, tiles, last⟩

namespace Owns

/-- A held pointer is the payload of a live block. -/
theorem block_of_held (owns : Owns live blocks) (member : pointer ∈ held live) :
    ∃ block ∈ blocks, block.free = false ∧ block.payload = pointer := by
  obtain ⟨allocation, inside, rfl⟩ := List.mem_map.mp member
  obtain ⟨block, inBlocks, free, payload, _⟩ := owns.owners allocation inside
  exact ⟨block, inBlocks, free, payload⟩

/-- The served block becomes a held one. -/
theorem serve (owns : Owns live blocks)
    (serves : Served size chosen blocks brk served blocks' brk')
    (tiles : Tiles Block.addr Block.stop base blocks brk) :
    Owns (record served.payload size live) blocks' := by
  obtain ⟨inside, servedLive, large⟩ := serves.result
  have nonnull : served.payload ≠ null := Nat.succ_ne_zero _
  unfold record
  rw [if_neg nonnull]
  refine ⟨fun allocation member => ?_, fun block member free => ?_, ?_⟩
  · rcases List.mem_cons.mp member with rfl | old
    · exact ⟨served, inside, servedLive, rfl, large⟩
    · obtain ⟨block, inBlocks, free, rest⟩ := owns.owners allocation old
      exact ⟨block, (serves.live_iff free).mpr (.inl inBlocks), free, rest⟩
  · simp only [held, List.map_cons, List.mem_cons]
    -- A live block is an old one, or the one that was served.
    rcases (serves.live_iff free).mp member with old | rfl
    · exact .inr (owns.used block old free)
    · exact .inl rfl
  · refine List.nodup_cons.mpr ⟨fun already => ?_, owns.distinct⟩
    -- A block that was held before lies elsewhere.
    obtain ⟨block, inBlocks, free, payload⟩ := owns.block_of_held already
    exact serves.fresh tiles inBlocks free (Nat.add_right_cancel payload)

/-- Two live blocks with one payload are one block. -/
theorem payload_ne (tiles : Tiles Block.addr Block.stop base blocks brk) (member : block ∈ blocks)
    (second : other ∈ blocks) (differs : other ≠ block) : other.payload ≠ block.payload :=
  fun same => differs (tiles.eq_of_low_eq second member (Nat.add_right_cancel same))

/-- The pointers that are still held after one was given back. -/
theorem mem_release {allocation : Nat × Nat} :
    allocation ∈ Malloc.release pointer live ↔ allocation ∈ live ∧ allocation.1 ≠ pointer := by
  simp [Malloc.release]

theorem mem_held_release {node : Nat} :
    node ∈ held (Malloc.release pointer live) ↔ node ∈ held live ∧ node ≠ pointer := by
  simp only [held, List.mem_map, mem_release]
  grind

/-- A released block is no longer held. -/
theorem release (owns : Owns live blocks) (released : Released brk' block blocks blocks')
    (tiles : Tiles Block.addr Block.stop base blocks brk) (member : block ∈ blocks) :
    Owns (Malloc.release block.payload live) blocks' := by
  have nodup := tiles.nodup
  refine ⟨fun allocation inLive => ?_, fun other inBlocks free => ?_, ?_⟩
  · obtain ⟨old, differs⟩ := mem_release.mp inLive
    obtain ⟨owner, inBlocks, free, payload, large⟩ := owns.owners allocation old
    have notBlock : owner ≠ block := fun same => differs (by rw [← payload, same])
    exact ⟨owner, (released.live_iff nodup free).mpr ⟨inBlocks, notBlock⟩, free, payload, large⟩
  · obtain ⟨old, notBlock⟩ := (released.live_iff nodup free).mp inBlocks
    exact mem_held_release.mpr ⟨owns.used other old free, payload_ne tiles member old notBlock⟩
  · exact owns.distinct.sublist (List.Sublist.map _ List.filter_sublist)

/-- A trimmed block is held with its new size. -/
theorem trim (owns : Owns live blocks) (trimmed : Trimmed size block kept blocks blocks')
    (tiles : Tiles Block.addr Block.stop base blocks brk) (member : block ∈ blocks)
    (blockLive : block.free = false) (fits : size ≤ block.size) :
    Owns (record block.payload size (Malloc.release block.payload live)) blocks' := by
  have nodup := tiles.nodup
  -- The trimmed block stays at its address, so the pointer stays the same.
  obtain ⟨inside, keptLive, large, place, _⟩ := trimmed.result member blockLive fits
  have payload : kept.payload = block.payload := congrArg (· + 32) place
  have nonnull : block.payload ≠ null := Nat.succ_ne_zero _
  unfold record
  rw [if_neg nonnull]
  refine ⟨fun allocation inLive => ?_, fun other inBlocks free => ?_, ?_⟩
  · rcases List.mem_cons.mp inLive with rfl | rest
    · exact ⟨kept, inside, keptLive, payload, large⟩
    · obtain ⟨old, differs⟩ := mem_release.mp rest
      obtain ⟨owner, inBlocks, free, ownerPayload, enough⟩ := owns.owners allocation old
      have notBlock : owner ≠ block := fun same => differs (by rw [← ownerPayload, same])
      exact ⟨owner, (trimmed.live_iff member nodup free).mpr (.inl ⟨inBlocks, notBlock⟩), free,
        ownerPayload, enough⟩
  · rw [held, List.map_cons, List.mem_cons]
    rcases (trimmed.live_iff member nodup free).mp inBlocks with ⟨old, notBlock⟩ | rfl
    · exact .inr (mem_held_release.mpr
        ⟨owns.used other old free, payload_ne tiles member old notBlock⟩)
    · exact .inl payload
  · refine List.nodup_cons.mpr ⟨fun again => (mem_held_release.mp again).2 rfl, ?_⟩
    exact owns.distinct.sublist (List.Sublist.map _ List.filter_sublist)

end Owns

/-- The heap represents blocks and a free list, and the program holds the live blocks. -/
structure Consistent (client : Client) (blocks : List Block) (list : List Nat) : Prop where
  rep : Represents client.heap blocks list
  owns : Owns client.live blocks

/--
What a step does to the blocks and the break, by the pointer it is given and the bytes it asks
for. Serving and moving also say which node the search of the program chose.
-/
inductive Effect (h : Heap) : Nat → Nat → List Block → List Block → Nat → Prop
  | idle (blocks : List Block) : Effect h null 0 blocks blocks h.brk
  | serve {size chosen fuel brk' : Nat} {served : Block} {blocks blocks' : List Block}
      (positive : size ≠ 0) (searched : findFreeGetAddr fuel h size = some chosen)
      (serves : Served size chosen blocks h.brk served blocks' brk') :
      Effect h null size blocks blocks' brk'
  | release {block : Block} {blocks blocks' : List Block} (member : block ∈ blocks)
      (live : block.free = false) (released : Released h.brk block blocks blocks') :
      Effect h block.payload 0 blocks blocks' h.brk
  | trim {size : Nat} {block kept : Block} {blocks blocks' : List Block} (member : block ∈ blocks)
      (live : block.free = false) (positive : size ≠ 0) (fits : size ≤ block.size)
      (trimmed : Trimmed size block kept blocks blocks') :
      Effect h block.payload size blocks blocks' h.brk
  | move {size chosen fuel brk' : Nat} {block served : Block} {blocks middle blocks' : List Block}
      (member : block ∈ blocks) (live : block.free = false) (larger : block.size < size)
      (searched : findFreeGetAddr fuel h size = some chosen)
      (serves : Served size chosen blocks h.brk served middle brk')
      (released : Released brk' block middle blocks') :
      Effect h block.payload size blocks blocks' brk'

/-- Every live block but the one that is given stays, with its bytes. -/
def Keeps (h h' : Heap) (given : Nat) (blocks blocks' : List Block) : Prop :=
  ∀ other ∈ blocks, other.free = false → other.payload ≠ given →
    other ∈ blocks' ∧ PayloadKept h h' other

namespace Consistent

variable {client : Client} {h' : Heap} {fuel num result : Nat}

/-- A call of `malloc` by a consistent program. -/
theorem malloc (consistent : Consistent client blocks list) (fits : size < 2 ^ 64)
    (granted : Granted client.heap size)
    (returns : Malloc.malloc fuel client.heap size = some (result, h')) :
    ∃ blocks' list', Consistent ⟨h', record result size client.live⟩ blocks' list' ∧
      Effect client.heap null size blocks blocks' h'.brk ∧
      Keeps client.heap h' null blocks blocks' := by
  by_cases zero : size = 0
  · subst zero
    rw [malloc_zero] at returns
    obtain ⟨rfl, rfl⟩ := Prod.mk.inj (Option.some.inj returns)
    -- Nothing is served; only the start of the heap is recorded.
    obtain ⟨rep, _, brk, _, mem, _⟩ := begun_represents consistent.rep
    refine ⟨blocks, list, ⟨rep, consistent.owns⟩, ?_, fun other member _ _ =>
      ⟨member, fun address _ _ => by rw [mem]⟩⟩
    rw [brk]
    exact .idle blocks
  · obtain ⟨chosen, served, blocks', list', searched, serves, rfl, rep, _, kept⟩ :=
      malloc_spec consistent.rep zero fits granted returns
    exact ⟨blocks', list', ⟨rep, consistent.owns.serve serves consistent.rep.tiles⟩,
      .serve zero searched serves, fun other member free _ =>
        ⟨(serves.live_iff free).mpr (.inl member), kept other member free⟩⟩

/-- A call of `calloc` by a consistent program. -/
theorem calloc (consistent : Consistent client blocks list) (fits : num * size < 2 ^ 64)
    (granted : Granted client.heap (num * size))
    (returns : Malloc.calloc fuel client.heap num size = some (result, h')) :
    ∃ blocks' list', Consistent ⟨h', record result (num * size) client.live⟩ blocks' list' ∧
      Effect client.heap null (num * size) blocks blocks' h'.brk ∧
      Keeps client.heap h' null blocks blocks' := by
  by_cases zero : num * size = 0
  · -- Without bytes `malloc` returns null and nothing is cleared.
    have nothing : Malloc.malloc fuel client.heap (num * size) = some (result, h') := by
      unfold Malloc.calloc at returns
      rw [wrap_of_lt fits, zero, malloc_zero] at returns
      rw [zero, malloc_zero]
      exact returns
    exact consistent.malloc fits granted nothing
  · obtain ⟨chosen, served, blocks', list', searched, serves, rfl, rep, _, kept, _⟩ :=
      calloc_spec consistent.rep zero fits granted returns
    exact ⟨blocks', list', ⟨rep, consistent.owns.serve serves consistent.rep.tiles⟩,
      .serve zero searched serves, fun other member free _ =>
        ⟨(serves.live_iff free).mpr (.inl member), kept other member free⟩⟩

/-- The null pointer is not held. -/
theorem null_not_held (consistent : Consistent client blocks list) : null ∉ held client.live := by
  intro member
  obtain ⟨block, _, _, payload⟩ := consistent.owns.block_of_held member
  exact Nat.succ_ne_zero _ payload

/-- Giving back the null pointer changes nothing. -/
theorem release_null (consistent : Consistent client blocks list) :
    release null client.live = client.live := by
  refine List.filter_eq_self.mpr fun allocation member => ?_
  have absent : allocation.1 ≠ null := fun same =>
    consistent.null_not_held (same ▸ List.mem_map_of_mem member)
  simpa using absent

/-- A call of `free` by a consistent program. -/
theorem free (consistent : Consistent client blocks list)
    (known : pointer = null ∨ pointer ∈ held client.live) :
    ∃ blocks' list',
      Consistent ⟨Malloc.free client.heap pointer, release pointer client.live⟩ blocks' list' ∧
      Effect client.heap pointer 0 blocks blocks' (Malloc.free client.heap pointer).brk ∧
      Keeps client.heap (Malloc.free client.heap pointer) pointer blocks blocks' := by
  rcases known with rfl | member
  · rw [consistent.release_null]
    -- `free` of null returns at once.
    have nothing : Malloc.free client.heap null = client.heap := if_pos rfl
    rw [nothing]
    exact ⟨blocks, list, consistent, .idle blocks, fun other member _ _ =>
      ⟨member, fun _ _ _ => rfl⟩⟩
  · obtain ⟨block, inside, live, rfl⟩ := consistent.owns.block_of_held member
    obtain ⟨blocks', list', released, process, rep, kept⟩ := free_spec consistent.rep inside live
    refine ⟨blocks', list', ⟨rep, consistent.owns.release released consistent.rep.tiles inside⟩, ?_,
      fun other second free differs => ?_⟩
    · rw [process.brk]
      exact .release inside live released
    · have notBlock : other ≠ block := fun same => differs (by rw [same])
      exact ⟨(released.live_iff consistent.rep.tiles.nodup free).mpr ⟨second, notBlock⟩,
        kept other second free notBlock⟩

/-- A block that is large enough is trimmed in place. -/
theorem reduceSize (consistent : Consistent client blocks list) (inside : block ∈ blocks)
    (live : block.free = false) (positive : size ≠ 0) (fits : size ≤ block.size)
    (returns : Malloc.reduceSize client.heap block.payload size = (result, h')) :
    ∃ blocks' list', Consistent ⟨h', if result = null ∧ size ≠ 0 then client.live
        else record result size (release block.payload client.live)⟩ blocks' list' ∧
      Effect client.heap block.payload size blocks blocks' h'.brk ∧
      Keeps client.heap h' block.payload blocks blocks' := by
  have spec := reduceSize_spec consistent.rep inside live fits
  have nonnull : block.payload ≠ null := Nat.succ_ne_zero _
  rw [returns] at spec
  obtain ⟨place, process, kept, blocks', list', trimmed, rep, others, _⟩ := spec
  obtain rfl : result = block.payload := place
  rw [if_neg fun both => nonnull both.1]
  refine ⟨blocks', list', ⟨rep, consistent.owns.trim trimmed consistent.rep.tiles inside live
    fits⟩, ?_, fun other second free differs => ?_⟩
  · rw [process.brk]
    exact .trim inside live positive fits trimmed
  · have notBlock : other ≠ block := fun same => differs (by rw [same])
    exact ⟨(trimmed.live_iff inside consistent.rep.tiles.nodup free).mpr (.inl ⟨second, notBlock⟩),
      others other second free notBlock⟩

/-- The bytes of a block that is too small move to a new one. -/
theorem increaseSize (consistent : Consistent client blocks list) (inside : block ∈ blocks)
    (live : block.free = false) (larger : block.size < size) (fits : size < 2 ^ 64)
    (granted : Granted client.heap size)
    (returns : Malloc.increaseSize fuel client.heap block.payload block.size size =
      some (result, h')) :
    ∃ blocks' list', Consistent ⟨h', if result = null ∧ size ≠ 0 then client.live
        else record result size (release block.payload client.live)⟩ blocks' list' ∧
      Effect client.heap block.payload size blocks blocks' h'.brk ∧
      Keeps client.heap h' block.payload blocks blocks' := by
  obtain ⟨chosen, served, middle, blocks', list', searched, serves, released, rfl, rep, _,
    others, _⟩ := increaseSize_spec consistent.rep inside live larger fits granted returns
  have differs : served.payload ≠ block.payload := fun same =>
    serves.fresh consistent.rep.tiles inside live (Nat.add_right_cancel same).symm
  have remains : block ∈ middle := (serves.live_iff live).mpr (.inl inside)
  have middleTiles := serves.tiles consistent.rep.tiles
  have owns := (consistent.owns.serve serves consistent.rep.tiles).release released middleTiles
    remains
  have servedNonnull : served.payload ≠ null := Nat.succ_ne_zero _
  rw [if_neg fun both => servedNonnull both.1]
  rw [record, if_neg servedNonnull] at owns ⊢
  refine ⟨blocks', list', ⟨rep, ?_⟩, .move inside live larger searched serves released,
    fun other second free notGiven => ?_⟩
  · -- The block is given back after the new one was served, and they are different ones.
    rw [Malloc.release, List.filter_cons_of_pos (by simpa using differs)] at owns
    exact owns
  · have notBlock : other ≠ block := fun same => notGiven (by rw [same])
    have inMiddle := (serves.live_iff free).mpr (.inl second)
    exact ⟨(released.live_iff middleTiles.nodup free).mpr ⟨inMiddle, notBlock⟩,
      others other second free notBlock⟩

/-- A call of `realloc` by a consistent program. -/
theorem realloc (consistent : Consistent client blocks list)
    (known : pointer = null ∨ pointer ∈ held client.live) (fits : size < 2 ^ 64)
    (granted : pointer = null ∨ client.heap.size (wrapSub pointer structSize) < size →
      Granted client.heap size)
    (returns : Malloc.realloc fuel client.heap pointer size = some (result, h')) :
    ∃ blocks' list', Consistent ⟨h', if result = null ∧ size ≠ 0 then client.live
        else record result size (release pointer client.live)⟩ blocks' list' ∧
      Effect client.heap pointer size blocks blocks' h'.brk ∧
      Keeps client.heap h' pointer blocks blocks' := by
  rcases known with rfl | member
  · -- Without a block to resize this is `malloc`.
    obtain ⟨blocks', list', after, rest⟩ := consistent.malloc fits (granted (.inl rfl)) returns
    refine ⟨blocks', list', ?_, rest⟩
    rw [consistent.release_null]
    by_cases absent : result = null
    · rw [record, if_pos absent] at after
      rw [record, if_pos absent, ite_self]
      exact after
    · rw [if_neg fun both => absent both.1]
      exact after
  · obtain ⟨block, inside, live, rfl⟩ := consistent.owns.block_of_held member
    obtain ⟨header, _, nonnull⟩ := consistent.rep.header_of_payload inside
    have stored := (consistent.rep.stored block inside).size
    unfold Malloc.realloc at returns
    rw [if_neg nonnull] at returns
    by_cases zero : size = 0
    · rw [if_pos zero] at returns
      obtain ⟨rfl, rfl⟩ := Prod.mk.inj (Option.some.inj returns)
      rw [if_neg fun both => both.2 zero, record, if_pos rfl, zero]
      -- A request for no bytes gives the block back.
      exact consistent.free (.inr member)
    · simp only [if_neg zero, header, Heap.size, stored] at returns
      by_cases shrinks : block.size ≥ size
      · rw [if_pos shrinks] at returns
        exact consistent.reduceSize inside live zero shrinks (Option.some.inj returns)
      · rw [if_neg shrinks] at returns
        have larger : block.size < size := Nat.not_le.mp shrinks
        have grants := granted (.inr (by rw [header, Heap.size, stored]; exact larger))
        exact consistent.increaseSize inside live larger fits grants returns

/-- A write of a consistent program stays inside one of its payloads. -/
theorem write (consistent : Consistent client blocks list) {address : Nat} {byte : UInt8}
    (owned : ∃ allocation ∈ client.live,
      allocation.1 ≤ address ∧ address < allocation.1 + allocation.2) :
    Consistent ⟨{ client.heap with mem := Function.update client.heap.mem address byte },
      client.live⟩ blocks list := by
  obtain ⟨allocation, member, above, below⟩ := owned
  obtain ⟨block, inside, live, payload, large⟩ := consistent.owns.owners allocation member
  refine ⟨consistent.rep.write inside live ⟨rfl, rfl, rfl, rfl⟩ rfl fun place outside => ?_,
    consistent.owns⟩
  -- The written byte is inside the payload, so any other address is a different one.
  exact Function.update_of_ne (by omega) _ _

end Consistent

/--
Every step of a consistent program leaves it consistent, has the effect that its arguments say,
and changes no payload byte of another live block except by a write of the program itself.
-/
theorem Consistent.step {before after : Client} {event : Event}
    (consistent : Consistent before blocks list) (step : Step before event after) :
    ∃ blocks' list', Consistent after blocks' list' ∧
      Effect before.heap event.given event.requested blocks blocks' after.heap.brk ∧
      ∀ other ∈ blocks, other.free = false → other.payload ≠ event.given → other ∈ blocks' ∧
        ∀ address, other.payload ≤ address → address < other.payload + other.size →
          after.heap.mem address = event.leaves address (before.heap.mem address) := by
  cases step with
  | malloc fits granted returns =>
    obtain ⟨blocks', list', next, effect, keeps⟩ := consistent.malloc fits granted returns
    exact ⟨blocks', list', next, effect, keeps⟩
  | calloc numFits sizeFits fits granted returns =>
    obtain ⟨blocks', list', next, effect, keeps⟩ := consistent.calloc fits granted returns
    exact ⟨blocks', list', next, effect, keeps⟩
  | realloc known fits granted returns =>
    obtain ⟨blocks', list', next, effect, keeps⟩ :=
      consistent.realloc known fits granted returns
    exact ⟨blocks', list', next, effect, keeps⟩
  | free known =>
    obtain ⟨blocks', list', next, effect, keeps⟩ := consistent.free known
    exact ⟨blocks', list', next, effect, keeps⟩
  -- A write of the program changes its own byte, and no block.
  | @write place byte owned =>
    refine ⟨blocks, list, consistent.write owned, .idle blocks, fun other member _ _ =>
      ⟨member, fun address _ _ => ?_⟩⟩
    simp only [Function.update, Event.leaves, eq_rec_constant, dite_eq_ite]
    by_cases same : place = address
    · rw [if_pos same.symm, if_pos same]
    · rw [if_neg (Ne.symm same), if_neg same]

end SystemProgramming.Malloc
