import SystemProgramming.Malloc.Coalescing

/-! `realloc` in every run of a program: what it returns, what it keeps, and what stays as it is. -/

namespace SystemProgramming.Malloc

open Foundations

variable {h h' : Heap} {client : Client} {trace : List (Transition Client Event)}
  {blocks blocks' : List Block} {list : List Nat} {block : Block}
  {pointer size result fuel fuel' : Nat}

/-- With more fuel than there are free blocks, `malloc` returns. -/
theorem malloc_total (rep : Represents h blocks list) (enough : list.length < fuel) :
    ∃ result h', malloc fuel h size = some (result, h') := by
  by_cases zero : size = 0
  · rw [zero, malloc_zero]
    exact ⟨_, _, rfl⟩
  · obtain ⟨repBegun, _⟩ := begun_represents rep
    obtain ⟨found, searched⟩ := @findFreeGetAddr_total _ _ _ size _ repBegun enough
    rw [malloc_eq zero searched]
    -- Every branch behind the search returns.
    split
    · split
      · exact ⟨_, _, rfl⟩
      · exact ⟨_, _, rfl⟩
    · split
      · exact ⟨_, _, rfl⟩
      · exact ⟨_, _, rfl⟩

/-- It returns the same with whatever fuel it returns. -/
theorem malloc_fuel (rep : Represents h blocks list) (enough : list.length < fuel)
    (enough' : list.length < fuel') : malloc fuel h size = malloc fuel' h size := by
  by_cases zero : size = 0
  · rw [zero, malloc_zero, malloc_zero]
  · obtain ⟨repBegun, _⟩ := begun_represents rep
    obtain ⟨found, searched⟩ := @findFreeGetAddr_total _ _ _ size _ repBegun enough
    obtain ⟨found', searched'⟩ := @findFreeGetAddr_total _ _ _ size _ repBegun enough'
    obtain rfl := findFreeGetAddr_unique repBegun searched searched'
    rw [malloc_eq zero searched, malloc_eq zero searched']

/-- What a call leaves that gives `size` bytes to an allocation of the blocks that were there. -/
structure Resized (h : Heap) (blocks : List Block) (pointer size result : Nat) (h' : Heap)
    (blocks' : List Block) : Prop where
  /-- The pointer that is returned is live, and its block is large enough. -/
  holds : ∃ block ∈ blocks', block.free = false ∧ block.payload = result ∧ size ≤ block.size
  /-- The bytes that fit in the old block and in the new size are the old ones. -/
  bytes : ∀ offset, offset < min (payloadSize h pointer) size →
    h'.mem (result + offset) = h.mem (pointer + offset)
  /-- Every other allocation keeps its block and its bytes. -/
  others : ∀ other ∈ blocks, other.free = false → other.payload ≠ pointer →
    other ∈ blocks' ∧ PayloadKept h h' other
  /-- Nothing else becomes live, and the old pointer stays live only if it is returned. -/
  only : ∀ block ∈ blocks', block.free = false →
    block.payload = result ∨ block ∈ blocks ∧ block.payload ≠ pointer

/-- Trimming in place gives a smaller allocation. -/
theorem Represents.shrinks (rep : Represents h blocks list) (member : block ∈ blocks)
    (live : block.free = false) (fits : size ≤ block.size) :
    ∃ blocks' list', Represents (reduceSize h block.payload size).2 blocks' list' ∧
      Resized h blocks block.payload size (reduceSize h block.payload size).1
        (reduceSize h block.payload size).2 blocks' := by
  have spec := reduceSize_spec rep member live fits
  -- Only what the specification says of the outcome matters here.
  generalize reduceSize h block.payload size = outcome at spec ⊢
  obtain ⟨place, _, kept, blocks', list', trimmed, rep', others, bytes⟩ := spec
  obtain ⟨inside, keptLive, large, addr, _⟩ := trimmed.result member live fits
  have nodup := rep.tiles.nodup
  have payload : kept.payload = block.payload := congrArg (· + 32) addr
  refine ⟨blocks', list', rep', ?_⟩
  rw [place]
  refine ⟨⟨kept, inside, keptLive, payload, large⟩, fun offset below => ?_,
    fun other second free differs => ?_, fun other second free => ?_⟩
  · have short : offset < size := Nat.lt_of_lt_of_le below (Nat.min_le_right _ _)
    rw [← payload]
    apply bytes
    · exact Nat.le_add_right _ _
    · exact Nat.add_lt_add_left (Nat.lt_of_lt_of_le short large) _
  · have notBlock : other ≠ block := fun same => differs (by rw [same])
    exact ⟨(trimmed.live_iff member nodup free).mpr (.inl ⟨second, notBlock⟩),
      others other second free notBlock⟩
  · rcases (trimmed.live_iff member nodup free).mp second with ⟨old, notBlock⟩ | rfl
    · exact .inr ⟨old, Owns.payload_ne rep.tiles member old notBlock⟩
    · exact .inl payload

/-- Moving to a new block gives a larger one, with the old bytes. -/
theorem Represents.moves (rep : Represents h blocks list) (member : block ∈ blocks)
    (live : block.free = false) (larger : block.size < size) (fits : size < 2 ^ 64)
    (granted : Granted h size)
    (returns : increaseSize fuel h block.payload block.size size = some (result, h')) :
    ∃ blocks' list', Represents h' blocks' list' ∧
      Resized h blocks block.payload size result h' blocks' := by
  obtain ⟨chosen, served, middle, blocks', list', _, serves, released, rfl, rep', _, others, bytes⟩ :=
    increaseSize_spec rep member live larger fits granted returns
  obtain ⟨inside, servedLive, large⟩ := serves.result
  have middleTiles := serves.tiles rep.tiles
  have remains : block ∈ middle := (serves.live_iff live).mpr (.inl member)
  have differs : served ≠ block := fun same =>
    serves.fresh rep.tiles member live (by rw [same])
  refine ⟨blocks', list', rep', ⟨served, ?_, servedLive, rfl, large⟩, fun offset below => ?_,
    fun other second free notGiven => ?_, fun other second free => ?_⟩
  · exact (released.live_iff middleTiles.nodup servedLive).mpr ⟨inside, differs⟩
  · rw [payloadSize_eq rep member] at below
    exact bytes offset (by omega)
  · have notBlock : other ≠ block := fun same => notGiven (by rw [same])
    have inMiddle := (serves.live_iff free).mpr (.inl second)
    exact ⟨(released.live_iff middleTiles.nodup free).mpr ⟨inMiddle, notBlock⟩,
      others other second free notBlock⟩
  · -- What is live was live, or it is the block that was served.
    obtain ⟨inMiddle, notBlock⟩ := (released.live_iff middleTiles.nodup free).mp second
    rcases (serves.live_iff free).mp inMiddle with old | rfl
    · exact .inr ⟨old, Owns.payload_ne rep.tiles member old notBlock⟩
    · exact .inl rfl

/-- `realloc` of a block that is live, to a size that is not zero. -/
theorem Represents.resizes (rep : Represents h blocks list) (member : block ∈ blocks)
    (live : block.free = false) (positive : size ≠ 0) (fits : size < 2 ^ 64)
    (granted : payloadSize h block.payload < size → Granted h size) :
    ∃ result h' blocks' list',
      (∀ fuel, list.length < fuel → realloc fuel h block.payload size = some (result, h')) ∧
      Represents h' blocks' list' ∧ Resized h blocks block.payload size result h' blocks' := by
  obtain ⟨header, _, nonnull⟩ := rep.header_of_payload member
  have stored := (rep.stored block member).size
  rw [payloadSize_eq rep member] at granted
  have whole (fuel : Nat) : realloc fuel h block.payload size =
      if size ≤ block.size then some (reduceSize h block.payload size)
      else increaseSize fuel h block.payload block.size size := by
    simp only [realloc, if_neg nonnull, if_neg positive, header, Heap.size, stored]
  by_cases shrinks : size ≤ block.size
  · obtain ⟨blocks', list', rep', resized⟩ := rep.shrinks member live shrinks
    refine ⟨_, _, blocks', list', fun fuel _ => ?_, rep', resized⟩
    rw [whole, if_pos shrinks]
  · have larger := Nat.not_le.mp shrinks
    -- The fuel does not matter, once the search returns.
    obtain ⟨place, middle, allocated⟩ :=
      @malloc_total _ _ _ size _ rep (Nat.lt_succ_self list.length)
    have returns : ∃ result h',
        increaseSize (list.length + 1) h block.payload block.size size = some (result, h') := by
      rw [increaseSize, allocated]
      simp only
      split
      · exact ⟨_, _, rfl⟩
      · exact ⟨_, _, rfl⟩
    obtain ⟨result, h', returns⟩ := returns
    obtain ⟨blocks', list', rep', resized⟩ :=
      rep.moves member live larger fits (granted larger) returns
    refine ⟨result, h', blocks', list', fun fuel enough => ?_, rep', resized⟩
    rw [whole, if_neg shrinks, ← returns, increaseSize, increaseSize,
      malloc_fuel rep enough (Nat.lt_succ_self list.length)]

/-- The blocks of a program after a call that gave it a resized block are the ones it owns. -/
theorem Consistent.resized (consistent : Consistent client blocks list) (member : block ∈ blocks)
    (live : block.free = false) (positive : size ≠ 0) (fits : size < 2 ^ 64)
    (granted : payloadSize client.heap block.payload < size → Granted client.heap size) :
    ∃ result h' blocks' list',
      (∀ fuel, list.length < fuel →
        Malloc.realloc fuel client.heap block.payload size = some (result, h')) ∧
      Resized client.heap blocks block.payload size result h' blocks' ∧
      Consistent ⟨h', record result size (Malloc.release block.payload client.live)⟩ blocks' list' := by
  obtain ⟨result, h', blocks', list', returns, rep', resized⟩ :=
    consistent.rep.resizes member live positive fits granted
  have known := consistent.owns.used block member live
  have nonnull : block.payload ≠ null := Nat.succ_ne_zero _
  -- The same call also keeps the account of what the program holds.
  have account := consistent.realloc (.inr known) fits
    (fun which => granted (which.resolve_left nonnull)) (returns _ (Nat.lt_succ_self _))
  obtain ⟨again, list'', after, _⟩ := account
  have present : result ≠ null := by
    obtain ⟨holder, _, _, payload, _⟩ := resized.holds
    rw [← payload]
    exact Nat.succ_ne_zero _
  rw [if_neg fun both => present both.1] at after
  -- Both descriptions are of the same bytes, so they are the same blocks.
  obtain rfl := rep'.toLayout.unique after.rep.toLayout
  exact ⟨result, h', blocks', list'', returns, resized, after⟩

/-- What a program may expect of `realloc`, by its pointer and the size it asks for. -/
structure ReallocContract (client : Client) (blocks : List Block) (list : List Nat) : Prop where
  /-- A live block of any size is resized to any other, if the kernel grants what it grows. -/
  resize : ∀ pointer ∈ held client.live, ∀ size, size ≠ 0 → size < 2 ^ 64 →
    (payloadSize client.heap pointer < size → Granted client.heap size) →
    ∃ result h' blocks' list',
      (∀ fuel, list.length < fuel → realloc fuel client.heap pointer size = some (result, h')) ∧
      Resized client.heap blocks pointer size result h' blocks' ∧
      Consistent ⟨h', record result size (release pointer client.live)⟩ blocks' list'
  /-- Without a block it is `malloc`. -/
  absent : ∀ size, (∀ fuel, realloc fuel client.heap null size = malloc fuel client.heap size) ∧
    (size < 2 ^ 64 → Granted client.heap size → ∃ result h' blocks' list',
      (∀ fuel, list.length < fuel → realloc fuel client.heap null size = some (result, h')) ∧
      Consistent ⟨h', record result size client.live⟩ blocks' list')
  /-- Without bytes it is `free`. -/
  empty : ∀ pointer ∈ held client.live,
    (∀ fuel, realloc fuel client.heap pointer 0 = some (null, free client.heap pointer)) ∧
    ∃ blocks' list',
      Consistent ⟨free client.heap pointer, release pointer client.live⟩ blocks' list'

/-- After any calls of a program, `realloc` keeps its contract. -/
theorem realloc_contract (fresh : Fresh h) (run : Run Step ⟨h, []⟩ trace client) :
    ∃ blocks list, Consistent client blocks list ∧ ReallocContract client blocks list := by
  obtain ⟨blocks, list, consistent⟩ := consistent_of_run fresh run
  refine ⟨blocks, list, consistent, ?_, ?_, ?_⟩
  · intro pointer known size positive fits granted
    obtain ⟨block, member, live, rfl⟩ := consistent.owns.block_of_held known
    exact consistent.resized member live positive fits granted
  · intro size
    refine ⟨fun fuel => if_pos rfl, fun fits granted => ?_⟩
    obtain ⟨result, h', returns⟩ :=
      @malloc_total _ _ _ size _ consistent.rep (Nat.lt_succ_self list.length)
    obtain ⟨blocks', list', after, _⟩ := consistent.malloc fits granted returns
    refine ⟨result, h', blocks', list', fun fuel enough => ?_, after⟩
    rw [← returns, malloc_fuel consistent.rep (Nat.lt_succ_self _) enough]
    exact if_pos rfl
  · intro pointer known
    have nonnull : pointer ≠ null := fun same => consistent.null_not_held (same ▸ known)
    obtain ⟨blocks', list', after, _⟩ := consistent.free (.inr known)
    refine ⟨fun fuel => ?_, blocks', list', after⟩
    rw [realloc, if_neg nonnull, if_pos rfl]

theorem realloc_contract_sample : ∃ blocks list,
    Consistent ⟨twoServed, [(4176, 8), (4128, 8)]⟩ blocks list ∧
      ReallocContract ⟨twoServed, [(4176, 8), (4128, 8)]⟩ blocks list :=
  realloc_contract emptyProcess_fresh sample_serves

end SystemProgramming.Malloc
