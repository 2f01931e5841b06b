import SystemProgramming.Memcheck.Accounting

/-! The sizes that the checker asks for, records and returns, for requests that may wrap. -/

namespace SystemProgramming.Memcheck

open Foundations

section Sizes

/-- The number of bytes that a call asks the underlying allocator for. -/
def Operation.asked : Operation → Nat
  | malloc requestSize _ _ => (requestSize + metaDataSize).toNat
  | calloc numElements elementSize _ _ => (numElements * elementSize + metaDataSize).toNat
  | realloc payload requestSize _ _ =>
    if payload = 0 then (requestSize + metaDataSize).toNat else (metaDataSize + requestSize).toNat
  | free _ => 0

/--
What the allocator gives: so many bytes beside all blocks in use, but the one that moves. The addresses
of a process lie in the lower half of the address space.
-/
structure Gives (st : State) (moves : Option UInt64) (asked : Nat) (address : UInt64) : Prop where
  nonnull : address ≠ 0
  low : address.toNat < 9223372036854775808
  inside : address.toNat + asked ≤ addressSpace
  apart : ∀ other block, st.blocks other = some block → moves ≠ some other →
    Apart address.toNat asked other.toNat (metaDataSize.toNat + block.payload.length)

/-- The allocator answers a call with what it was asked for, whatever the call was asked for. -/
def Answered (st : State) (call : Call) : Prop :=
  ∀ address, call.given = some address →
    Gives st call.operation.moves call.operation.asked address

/-- A result points behind a node that records what was asked for, to no fewer bytes than that. -/
def Sufficient (call : Call) (st : State) : Prop :=
  ∀ value after, execute call st = some (value, after) → value ≠ 0 →
    ∃ block, after.blocks (value - metaDataSize) = some block ∧
      call.operation.request ≤ block.payload.length ∧
      block.node.requestSize.toNat = call.operation.request

/-- The call returns `NULL`: for a size of 0, for what is not allocated, or as the allocator fails. -/
def Denied (call : Call) (st : State) : Prop :=
  call.given = none ∨
    match call.operation with
    | .malloc requestSize _ _ => requestSize = 0
    | .calloc numElements elementSize _ _ => numElements * elementSize = 0
    | .realloc payload requestSize _ _ =>
      requestSize = 0 ∨ payload ≠ 0 ∧ st.blocks (payload - metaDataSize) = none
    | .free _ => True

/-- The call does not move a block. -/
def InPlace (call : Call) : Prop :=
  match call.operation with
  | .realloc payload _ _ _ => payload = 0 ∨ call.given = some (payload - metaDataSize)
  | .malloc _ _ _ | .calloc _ _ _ _ | .free _ => True

variable {st after : State} {call : Call} {given : Option UInt64}
  {address requestSize numElements elementSize filename instruction payload value : UInt64}

/-- Behind a node there is room for the request exactly if the sum with its size does not wrap. -/
theorem room_iff (nonzero : requestSize ≠ 0) :
    requestSize.toNat ≤ (requestSize + metaDataSize).toNat - metaDataSize.toNat ↔
      metaDataSize.toNat + requestSize.toNat < addressSpace := by
  -- A sum that wraps comes to less than the size of a node.
  have positive : 0 < requestSize.toNat :=
    Nat.pos_of_ne_zero fun zero => nonzero (UInt64.toNat_inj.mp zero)
  have bound := requestSize.toNat_lt
  rw [UInt64.toNat_add, show metaDataSize.toNat = 32 from rfl, addressSpace]
  omega

/-- A payload that the allocator gives is not `NULL`. -/
theorem payload_ne_zero (low : address.toNat < 9223372036854775808) : address + metaDataSize ≠ 0 := by
  intro zero
  have sum := congrArg UInt64.toNat zero
  rw [UInt64.toNat_add, show metaDataSize.toNat = 32 from rfl, show (0 : UInt64).toNat = 0 from rfl]
    at sum
  omega

/-- What `mini_malloc` leaves at the address that the allocator gives. -/
theorem miniMalloc_some (nonzero : requestSize ≠ 0) (address filename instruction : UInt64)
    (st : State) : ∃ after, miniMalloc (some address) requestSize filename instruction st =
        (address + metaDataSize, after) ∧
      after.blocks address = some ⟨⟨requestSize, filename, instruction, st.head⟩,
        List.replicate ((requestSize + metaDataSize).toNat - metaDataSize.toNat) none⟩ := by
  rw [miniMalloc, if_neg nonzero]
  exact ⟨_, rfl, Function.update_self _ _ _⟩

/-- A link that is set changes no size, and no node but the one before it. -/
theorem link_blocks (st : State) (before next : UInt64) (address : UInt64) :
    ∃ relink : Block → Block, (st.link before next).blocks address =
        (st.blocks address).map relink ∧
      ∀ block, (relink block).payload = block.payload ∧
        (relink block).node.requestSize = block.node.requestSize := by
  rw [State.link]
  split
  · exact ⟨id, by rw [Option.map_id]; rfl, fun block => ⟨rfl, rfl⟩⟩
  · by_cases same : address = before
    · subst same
      exact ⟨_, Function.update_self _ _ _, fun block => ⟨rfl, rfl⟩⟩
    · refine ⟨id, ?_, fun block => ⟨rfl, rfl⟩⟩
      rw [Option.map_id]
      exact Function.update_of_ne same _ _

/--
What `mini_realloc` leaves where its result points to: the new block, if that has not moved, and
otherwise nothing.
-/
theorem Tracks.realloc_at {nodes : List (UInt64 × Block)} (tracks : Tracks st nodes)
    (present : payload ≠ 0) (nonzero : requestSize ≠ 0)
    (listed : payload - metaDataSize ∈ nodes.map Prod.fst) (address filename instruction : UInt64) :
    ∃ after block, miniRealloc (some address) payload requestSize filename instruction st =
        some (payload, after) ∧
      (address ≠ payload - metaDataSize → after.blocks (payload - metaDataSize) = none) ∧
      (address = payload - metaDataSize →
        after.blocks (payload - metaDataSize) = some block ∧ block.node.requestSize = requestSize ∧
          block.payload.length = (metaDataSize + requestSize).toNat - metaDataSize.toNat) := by
  obtain ⟨front, old, back, rfl⟩ := exists_split listed
  obtain ⟨after, returned, blocks, _⟩ :=
    tracks.miniRealloc_eq present nonzero address filename instruction
  -- The block is moved, and linking the node in front changes no size.
  obtain ⟨new, gone, _⟩ := move_blocks st (payload - metaDataSize) address
    (old.resized requestSize filename instruction)
  obtain ⟨relink, linked, same⟩ := link_blocks (st.move (payload - metaDataSize) address
    (old.resized requestSize filename instruction)) ((front.map Prod.fst).getLastD 0) address
      (payload - metaDataSize)
  refine ⟨after, relink (old.resized requestSize filename instruction), returned, ?_, ?_⟩
  · intro moved
    rw [blocks, linked, gone (Ne.symm moved)]
    rfl
  · rintro rfl
    rw [blocks, linked, new]
    refine ⟨rfl, (same _).2, ?_⟩
    rw [(same _).1, Block.resized, List.length_append, List.length_take, List.length_replicate]
    omega

end Sizes

section Exact

variable {st : State} {call : Call} {trace : List (Transition State Call)}
  {requestSize numElements elementSize filename instruction payload : UInt64}
  {given : Option UInt64}

/-- A request that is not denied is answered with enough bytes if its size does not wrap. -/
theorem sufficient_malloc_iff (answered : Answered st ⟨.malloc requestSize filename instruction, given⟩) :
    (∀ value after, miniMalloc given requestSize filename instruction st = (value, after) →
      value ≠ 0 → ∃ block, after.blocks (value - metaDataSize) = some block ∧
        requestSize.toNat ≤ block.payload.length ∧
        block.node.requestSize.toNat = requestSize.toNat) ↔
    (given = none ∨ requestSize = 0) ∨
      metaDataSize.toNat + requestSize.toNat < addressSpace := by
  by_cases zero : requestSize = 0
  · -- For a size of 0, `NULL` is returned before the allocator is asked.
    refine iff_of_true (fun value after returns present => ?_) (.inl (.inr zero))
    simp only [miniMalloc, if_pos zero] at returns
    exact absurd (Prod.mk.inj returns).1.symm present
  cases given with
  | none =>
    refine iff_of_true (fun value after returns present => ?_) (.inl (.inl rfl))
    rw [miniMalloc, if_neg zero] at returns
    exact absurd (Prod.mk.inj returns).1.symm present
  | some address =>
    obtain ⟨after, returned, held⟩ := miniMalloc_some zero address filename instruction st
    have present := payload_ne_zero (answered address rfl).low
    rw [← room_iff zero]
    simp only [zero, reduceCtorEq, or_self, false_or]
    constructor
    · intro sufficient
      obtain ⟨block, found, room, _⟩ := sufficient _ _ returned present
      rw [node_of_payload, held] at found
      rw [← Option.some.inj found, List.length_replicate] at room
      exact room
    · rintro room value after' returned' _
      obtain ⟨rfl, rfl⟩ := Prod.mk.inj (returned.symm.trans returned')
      rw [node_of_payload, held]
      exact ⟨_, rfl, by rwa [List.length_replicate], rfl⟩

/-- The same for `mini_calloc`, whose product is to be that of integers, too. -/
theorem sufficient_calloc_iff
    (answered : Answered st ⟨.calloc numElements elementSize filename instruction, given⟩) :
    (∀ value after, miniCalloc given numElements elementSize filename instruction st =
        (value, after) → value ≠ 0 → ∃ block, after.blocks (value - metaDataSize) = some block ∧
          numElements.toNat * elementSize.toNat ≤ block.payload.length ∧
          block.node.requestSize.toNat = numElements.toNat * elementSize.toNat) ↔
    (given = none ∨ numElements * elementSize = 0) ∨
      metaDataSize.toNat + numElements.toNat * elementSize.toNat < addressSpace := by
  by_cases zero : numElements * elementSize = 0
  · refine iff_of_true (fun value after returns present => ?_) (.inl (.inr zero))
    simp only [miniCalloc, miniMalloc, if_pos zero] at returns
    exact absurd (Prod.mk.inj returns).1.symm present
  cases given with
  | none =>
    refine iff_of_true (fun value after returns present => ?_) (.inl (.inl rfl))
    rw [miniCalloc, miniMalloc, if_neg zero] at returns
    exact absurd (Prod.mk.inj returns).1.symm present
  | some address =>
    obtain ⟨after, returned, held⟩ := miniMalloc_some zero address filename instruction st
    have present := payload_ne_zero (answered address rfl).low
    have found := clear_at held (numElements * elementSize).toNat
    have length := Block.length_cleared ⟨⟨numElements * elementSize, filename, instruction, st.head⟩,
      List.replicate ((numElements * elementSize + metaDataSize).toNat - metaDataSize.toNat) none⟩
        (numElements * elementSize).toNat
    have result : miniCalloc (some address) numElements elementSize filename instruction st =
        (address + metaDataSize, after.clear (address + metaDataSize)
          (numElements * elementSize).toNat) := by
      simp only [miniCalloc, returned, if_pos present]
    rw [List.length_replicate] at length
    have room := room_iff zero
    rw [← length] at room
    simp only [zero, reduceCtorEq, or_self, false_or]
    constructor
    · intro sufficient
      obtain ⟨block, there, enough, recorded⟩ := sufficient _ _ result present
      rw [node_of_payload, found] at there
      obtain rfl := Option.some.inj there
      -- The product that was recorded is the one of the integers.
      have product : (numElements * elementSize).toNat = numElements.toNat * elementSize.toNat :=
        recorded
      rw [← product] at enough ⊢
      exact room.mp enough
    · rintro small value after' returned' _
      obtain ⟨rfl, rfl⟩ := Prod.mk.inj (result.symm.trans returned')
      have product : (numElements * elementSize).toNat = numElements.toNat * elementSize.toNat := by
        rw [UInt64.toNat_mul]
        exact Nat.mod_eq_of_lt (Nat.lt_of_le_of_lt (Nat.le_add_left _ _) small)
      rw [node_of_payload, found]
      rw [← product] at small ⊢
      exact ⟨_, rfl, room.mpr small, rfl⟩

/-- For `mini_realloc` of a payload, the block moreover has to stay where it is. -/
theorem sufficient_realloc_iff (run : Run Step start trace st) (present : payload ≠ 0) :
    (∀ value after, miniRealloc given payload requestSize filename instruction st =
        some (value, after) → value ≠ 0 →
        ∃ block, after.blocks (value - metaDataSize) = some block ∧
          requestSize.toNat ≤ block.payload.length ∧
          block.node.requestSize.toNat = requestSize.toNat) ↔
    (given = none ∨ requestSize = 0 ∨ st.blocks (payload - metaDataSize) = none) ∨
      given = some (payload - metaDataSize) ∧
        metaDataSize.toNat + requestSize.toNat < addressSpace := by
  obtain ⟨nodes, tracks, _⟩ := tracks_of_run run
  by_cases zero : requestSize = 0
  · refine iff_of_true (fun value after returns other => ?_) (.inl (.inr (.inl zero)))
    simp only [miniRealloc, if_neg present, if_pos zero] at returns
    obtain ⟨middle, _, same⟩ := Option.map_eq_some_iff.mp returns
    exact absurd (Prod.mk.inj same).1.symm other
  by_cases listed : payload - metaDataSize ∈ nodes.map Prod.fst
  · cases given with
    | none =>
      refine iff_of_true (fun value after returns other => ?_) (.inl (.inl rfl))
      obtain ⟨front, old, back, rfl⟩ := exists_split listed
      have found := tracks.chain.stored (show (payload - metaDataSize, old) ∈ _ by simp)
      simp only [miniRealloc, if_neg present, if_neg zero, tracks.search_eq, found,
        Option.map_some] at returns
      exact absurd (Prod.mk.inj (Option.some.inj returns)).1.symm other
    | some address =>
      obtain ⟨after, block, returned, gone, kept⟩ :=
        tracks.realloc_at present zero listed address filename instruction
      have allocated : st.blocks (payload - metaDataSize) ≠ none := by
        obtain ⟨⟨_, old⟩, member, same⟩ := List.mem_map.mp listed
        rw [← same, tracks.chain.stored member]
        exact Option.some_ne_none _
      simp only [zero, allocated, reduceCtorEq, or_self, false_or, Option.some.injEq]
      have room := room_iff zero
      rw [UInt64.add_comm] at room
      constructor
      · intro sufficient
        obtain ⟨other, found, enough, _⟩ := sufficient payload after returned present
        -- A block that has moved has left nothing behind.
        have stays : address = payload - metaDataSize := by
          by_contra moved
          rw [gone moved] at found
          cases found
        obtain ⟨there, _, length⟩ := kept stays
        obtain rfl := Option.some.inj (there.symm.trans found)
        rw [length] at enough
        exact ⟨stays, room.mp enough⟩
      · rintro ⟨stays, small⟩ value after' returned' _
        obtain ⟨rfl, rfl⟩ := Prod.mk.inj (Option.some.inj (returned.symm.trans returned'))
        obtain ⟨there, recorded, length⟩ := kept stays
        refine ⟨block, there, ?_, by rw [recorded]⟩
        rw [length]
        exact room.mpr small
  · -- What is not in the list is not allocated, and is counted as an invalid address.
    have absent : st.blocks (payload - metaDataSize) = none := by
      by_contra held
      obtain ⟨block, held⟩ := Option.ne_none_iff_exists'.mp held
      exact listed (tracks.listed _ block held)
    refine iff_of_true (fun value after returns other => ?_) (.inl (.inr (.inr absent)))
    simp only [miniRealloc, if_neg present, if_neg zero, tracks.search_none listed] at returns
    exact absurd (Prod.mk.inj (Option.some.inj returns)).1.symm other

/-- A call meets its size exactly if it returns `NULL`, or does not move a block and does not wrap. -/
theorem sufficient_iff (run : Run Step start trace st) (answered : Answered st call) :
    Sufficient call st ↔ Denied call st ∨
      InPlace call ∧ metaDataSize.toNat + call.operation.request < addressSpace := by
  obtain ⟨operation, given⟩ := call
  cases operation with
  | malloc requestSize filename instruction =>
    have exact_sizes := sufficient_malloc_iff answered
    simpa [Sufficient, Denied, InPlace, execute, Operation.request] using exact_sizes
  | calloc numElements elementSize filename instruction =>
    have exact_sizes := sufficient_calloc_iff answered
    simpa [Sufficient, Denied, InPlace, execute, Operation.request] using exact_sizes
  | free payload =>
    refine iff_of_true (fun value after returns present => ?_) (.inl (.inr trivial))
    obtain ⟨middle, _, same⟩ := Option.map_eq_some_iff.mp
      (show (miniFree payload st).map (fun st => (0, st)) = some (value, after) from returns)
    exact absurd (Prod.mk.inj same).1.symm present
  | realloc payload requestSize filename instruction =>
    by_cases null : payload = 0
    · -- Without a payload, this is `mini_malloc`.
      have answered' : Answered st ⟨.malloc requestSize filename instruction, given⟩ := by
        intro address same
        have gives := answered address same
        rwa [Operation.moves, Operation.asked, if_pos null, if_pos null] at gives
      have exact_sizes := sufficient_malloc_iff answered'
      simpa [Sufficient, Denied, InPlace, execute, Operation.request, miniRealloc, null]
        using exact_sizes
    · have exact_sizes := @sufficient_realloc_iff st trace requestSize filename instruction payload
        given run null
      simpa [Sufficient, Denied, InPlace, execute, Operation.request, null] using exact_sizes

/-- Five bytes are asked for and given. -/
theorem sufficient_iff_malloc : Sufficient ⟨.malloc 5 7 9, some 4096⟩ start := by
  refine (sufficient_iff Run.start ?_).mpr (.inr ⟨trivial, by decide⟩)
  intro address given
  obtain rfl := Option.some.inj given
  exact ⟨by decide, by decide, by decide, fun _ _ => nofun⟩

/-- Of `2 ^ 32` elements of `2 ^ 32 + 1` bytes, `2 ^ 32` bytes in all are recorded. -/
theorem product_wraps : ¬ ∀ (trace : List (Transition State Call)) (st : State) (call : Call),
    Run Step start trace st → Answered st call → Sufficient call st := by
  intro claim
  obtain ⟨after, returned, held⟩ := @miniMalloc_some 4294967296 (by decide) 4096 0 0 start
  have answered : Answered start ⟨.calloc 4294967296 4294967297 0 0, some 4096⟩ := by
    intro address given
    obtain rfl := Option.some.inj given
    exact ⟨by decide, by decide, by decide, fun _ _ => nofun⟩
  have sufficient := claim [] start _ Run.start answered
  have result : execute ⟨.calloc 4294967296 4294967297 0 0, some 4096⟩ start =
      some (4096 + metaDataSize, after.clear (4096 + metaDataSize) 4294967296) := by
    simp only [execute, miniCalloc]
    rw [show (4294967296 * 4294967297 : UInt64) = 4294967296 by decide, returned]
    rfl
  obtain ⟨block, there, _, recorded⟩ := sufficient _ _ result (by decide)
  rw [node_of_payload, clear_at held] at there
  obtain rfl := Option.some.inj there
  exact absurd recorded (by decide)

end Exact

end SystemProgramming.Memcheck
