import SystemProgramming.Memcheck.Sizes

/-! What `mini_realloc` returns, where the underlying allocator moves the block and where it does not. -/

namespace SystemProgramming.Memcheck

open Foundations

section Moves

variable {st after : State} {front back nodes : List (UInt64 × Block)} {block : Block}
  {given : Option UInt64} {payload requestSize filename instruction value : UInt64}
  {trace : List (Transition State Call)} {allocations : List Allocation} {call : Call}

/-- No call makes an allocation of nothing. -/
theorem onLive_positive (positive : ∀ allocation ∈ allocations, allocation.requestSize ≠ 0) :
    ∀ allocation ∈ onLive allocations call, allocation.requestSize ≠ 0 := by
  have acquired : ∀ {given : Option UInt64} {requestSize filename instruction : UInt64},
      ∀ allocation ∈ acquire given requestSize filename instruction allocations,
        allocation.requestSize ≠ 0 := by
    intro given requestSize filename instruction allocation member
    unfold acquire at member
    split at member
    · exact positive allocation member
    · rename_i nonzero
      cases given with
      | none => exact positive allocation member
      | some address =>
        rcases List.mem_cons.mp member with rfl | old
        · exact nonzero
        · exact positive allocation old
  have released : ∀ {payload : UInt64}, ∀ allocation ∈ release payload allocations,
      allocation.requestSize ≠ 0 :=
    fun allocation member => positive allocation (List.mem_of_mem_filter member)
  -- A call acquires, releases, or resizes to a size that is not zero.
  obtain ⟨operation, given⟩ := call
  cases operation with
  | malloc requestSize filename instruction => exact acquired
  | calloc numElements elementSize filename instruction => exact acquired
  | free payload =>
    simp only [onLive]
    split
    · exact positive
    · exact released
  | realloc payload requestSize filename instruction =>
    simp only [onLive]
    split
    · exact acquired
    · split
      · exact released
      · rename_i nonzero
        cases given with
        | none => exact positive
        | some address =>
          intro allocation member
          obtain ⟨old, listed, rfl⟩ := List.mem_map.mp member
          split
          · exact nonzero
          · exact positive old listed

/-- So a payload that is in the list is not `NULL`. -/
theorem payload_of_run (run : Run Step start trace st) (tracks : Tracks st nodes)
    (listed : payload - metaDataSize ∈ nodes.map Prod.fst) : payload ≠ 0 := by
  obtain ⟨nodes', tracks', same⟩ := tracks_of_run run
  obtain rfl := tracks.chain.unique tracks'.chain tracks.null
  have positive : ∀ allocation ∈ live (trace.map fun taken => taken.action),
      allocation.requestSize ≠ 0 := by
    rw [live]
    refine List.foldlRecOn (motive := fun allocations : List Allocation =>
      ∀ allocation ∈ allocations, allocation.requestSize ≠ 0) _ onLive (by simp)
        fun allocations positive call _ => ?_
    exact onLive_positive positive
  obtain ⟨node, member, address⟩ := List.mem_map.mp listed
  have nonzero := positive (allocation node) (same ▸ List.mem_map_of_mem member)
  have inside := tracks.placed.inside (allocation node) (List.mem_map_of_mem member)
  rintro rfl
  -- The node of `NULL` would take the last addresses, and leave none for its payload.
  have top : (allocation node).address.toNat = 18446744073709551584 := by
    rw [show (allocation node).address = node.1 from rfl, address]
    decide
  have some_bytes : 0 < (allocation node).requestSize.toNat :=
    Nat.pos_of_ne_zero fun zero => nonzero (UInt64.toNat_inj.mp zero)
  rw [top, Allocation.extent, show metaDataSize.toNat = 32 from rfl, addressSpace] at inside
  omega

/--
What `mini_realloc` is for: its result lies behind the node that is in the list now, in the place of the
old one, and is found by a later call; the other nodes are as they were, but for the link to this one;
and the old contents are there up to the smaller size.
-/
structure Follows (front back : List (UInt64 × Block)) (block : Block) (requestSize value : UInt64)
    (after : State) (front' : List (UInt64 × Block)) (resized : Block) : Prop where
  chain : Chain (fun block => block.node.next) after.blocks 0 after.head
    (front' ++ (value - metaDataSize, resized) :: back)
  others : front'.map outline = front.map outline
  size : resized.node.requestSize = requestSize
  room : requestSize.toNat ≤ resized.payload.length
  contents : ∀ i, i < block.payload.length → i < requestSize.toNat →
    resized.payload[i]? = block.payload[i]?
  found : ∃ before, search after.blocks (value - metaDataSize) addressSpace after.head 0 =
    some (some before)

/-- A block that is resized in place is linked between the nodes that were around it. -/
theorem Tracks.follows (tracks : Tracks st (front ++ (payload - metaDataSize, block) :: back))
    (present : payload ≠ 0) (nonzero : requestSize ≠ 0)
    (small : metaDataSize.toNat + requestSize.toNat < addressSpace) (filename instruction : UInt64) :
    ∃ after front' resized, miniRealloc (some (payload - metaDataSize)) payload requestSize filename
        instruction st = some (payload, after) ∧
      Follows front back block requestSize payload after front' resized := by
  have distinct := tracks.nodup
  simp only [List.map_append, List.map_cons, List.nodup_append, List.nodup_cons] at distinct
  have apart : payload - metaDataSize ∉ front.map Prod.fst :=
    fun member => distinct.2.2 _ member _ List.mem_cons_self rfl
  obtain ⟨after, front', returned, leads, outlines, here, _, others, _⟩ :=
    tracks.resized present nonzero apart filename instruction
  obtain ⟨_, _, rfl, _, behind⟩ := Chain.append_iff.mp tracks.chain
  have null := tracks.null
  have nonnull := tracks.nonnull
  have short := tracks.length_lt
  -- Outside of the front, only the block itself has changed.
  have same : ∀ cell, cell ∉ front.map Prod.fst → cell ≠ payload - metaDataSize →
      after.blocks cell = st.blocks cell := fun cell inFront other => others cell inFront other other
  have chain : Chain (fun block : Block => block.node.next) after.blocks 0 after.head
      (front' ++ (payload - metaDataSize, block.resized requestSize filename instruction) :: back) := by
    refine Chain.append_iff.mpr ⟨_, leads, rfl, here, behind.congr fun cell member => ?_⟩
    refine same cell (fun inFront => ?_) ?_
    · exact distinct.2.2 cell inFront cell (List.mem_cons_of_mem _ member) rfl
    · rintro rfl
      exact distinct.2.1.1 member
  have addresses : (front' ++ (payload - metaDataSize,
      block.resized requestSize filename instruction) :: back).map Prod.fst =
        (front ++ (payload - metaDataSize, block) :: back).map Prod.fst := by
    rw [List.map_append, List.map_append, outlines_addresses outlines]
    rfl
  have found := @search_found front' back (block.resized requestSize filename instruction)
    after.blocks (payload - metaDataSize) after.head addressSpace 0 (by
      rw [same 0 (fun member => ?_) (fun zero => ?_), null]
      · obtain ⟨node, listed, zero⟩ := List.mem_map.mp member
        exact nonnull node (List.mem_append_left _ listed) zero
      · exact nonnull (payload - metaDataSize, block) (by simp) zero.symm) chain
      (by rw [addresses]; exact tracks.nodup) (by
        have lengths := congrArg List.length outlines
        rw [List.length_map, List.length_map] at lengths
        rw [List.length_append] at short
        omega)
  have size : (metaDataSize + requestSize).toNat - metaDataSize.toNat = requestSize.toNat := by
    rw [UInt64.toNat_add]
    rw [addressSpace] at small
    rw [Nat.mod_eq_of_lt small]
    omega
  refine ⟨after, front', _, returned, chain, outlines, rfl, ?_, fun i below within => ?_, _, found⟩
  · rw [Block.resized, size, List.length_append, List.length_take, List.length_replicate]
    omega
  · rw [Block.resized, size, List.getElem?_append_left, List.getElem?_take_of_lt within]
    rw [List.length_take]
    omega

/--
Over every list that a run reaches, `mini_realloc` of one of its payloads does what it is for exactly if
the allocator fails, or leaves the block where it is, and the size does not wrap.
-/
theorem follows_iff (run : Run Step start trace st)
    (chain : Chain (fun block => block.node.next) st.blocks 0 st.head
      (front ++ (payload - metaDataSize, block) :: back))
    (nonzero : requestSize ≠ 0) (given : Option UInt64) (filename instruction : UInt64) :
    (∃ value after, miniRealloc given payload requestSize filename instruction st =
        some (value, after) ∧ (value ≠ 0 →
          ∃ front' resized, Follows front back block requestSize value after front' resized)) ↔
      given = none ∨ given = some (payload - metaDataSize) ∧
        metaDataSize.toNat + requestSize.toNat < addressSpace := by
  obtain ⟨nodes, tracks, _⟩ := tracks_of_run run
  obtain rfl := tracks.chain.unique chain tracks.null
  have listed : payload - metaDataSize ∈
      (front ++ (payload - metaDataSize, block) :: back).map Prod.fst := by simp
  have present := payload_of_run run tracks listed
  cases given with
  | none =>
    refine iff_of_true ⟨0, st, ?_, fun zero => absurd rfl zero⟩ (.inl rfl)
    have found := tracks.chain.stored (show (payload - metaDataSize, block) ∈ _ by simp)
    simp only [miniRealloc, if_neg present, if_neg nonzero, tracks.search_eq, found,
      Option.map_some]
  | some address =>
    simp only [reduceCtorEq, false_or, Option.some.injEq]
    constructor
    · rintro ⟨value, after, returned, follows⟩
      obtain ⟨after', resized, returned', gone, kept⟩ :=
        tracks.realloc_at present nonzero listed address filename instruction
      obtain ⟨rfl, rfl⟩ := Prod.mk.inj (Option.some.inj (returned'.symm.trans returned))
      obtain ⟨front', other, follows⟩ := follows present
      have held := follows.chain.stored (show (payload - metaDataSize, other) ∈ _ by simp)
      -- Behind the old node there is a node only if the block has not moved.
      have stays : address = payload - metaDataSize := by
        by_contra moved
        rw [gone moved] at held
        cases held
      obtain ⟨there, _, length⟩ := kept stays
      obtain rfl := Option.some.inj (there.symm.trans held)
      have room := follows.room
      rw [length, UInt64.add_comm] at room
      exact ⟨stays, (room_iff nonzero).mp room⟩
    · rintro ⟨rfl, small⟩
      obtain ⟨after, front', resized, returned, follows⟩ :=
        tracks.follows present nonzero small filename instruction
      exact ⟨payload, after, returned, fun _ => ⟨front', resized, follows⟩⟩

end Moves

section Samples

/-- The block of the sample run, of five bytes. -/
def sampleBlock : Block := ⟨⟨5, 7, 9, 0⟩, List.replicate 5 none⟩

theorem sample_chain : Chain (fun block => block.node.next) sampleAfter.blocks 0 sampleAfter.head
    ([] ++ ((4128 : UInt64) - metaDataSize, sampleBlock) :: []) :=
  ⟨rfl, by decide, rfl⟩

/-- The block is made larger where it is. -/
theorem follows_iff_larger : ∃ value after, miniRealloc (some 4096) 4128 8 7 9 sampleAfter =
    some (value, after) ∧ (value ≠ 0 →
      ∃ front' resized, Follows [] [] sampleBlock 8 value after front' resized) :=
  (follows_iff sample_run sample_chain (by decide) (some 4096) 7 9).mpr (.inr ⟨by decide, by decide⟩)

/-- Where the block moves, the result points behind the node that was freed. -/
theorem moved_block_lost : ¬ ∀ (trace : List (Transition State Call)) (st : State)
    (front back : List (UInt64 × Block)) (block : Block) (payload requestSize filename
      instruction : UInt64) (given : Option UInt64), Run Step start trace st →
    Chain (fun block => block.node.next) st.blocks 0 st.head
      (front ++ (payload - metaDataSize, block) :: back) → requestSize ≠ 0 →
    Answered st ⟨.realloc payload requestSize filename instruction, given⟩ →
    ∃ value after, miniRealloc given payload requestSize filename instruction st =
      some (value, after) ∧ (value ≠ 0 →
        ∃ front' resized, Follows front back block requestSize value after front' resized) := by
  intro claim
  have answered : Answered sampleAfter ⟨.realloc 4128 8 7 9, some 8192⟩ := by
    intro address given
    obtain rfl := Option.some.inj given
    refine ⟨by decide, by decide, by decide, fun other block held moves => ?_⟩
    -- The only block in use is the one that moves.
    by_cases same : other = 4096
    · exact absurd (by rw [same]; decide) moves
    · rw [show sampleAfter.blocks other = none from Function.update_of_ne same _ _] at held
      cases held
  obtain ⟨value, after, returned, follows⟩ := claim _ _ [] [] sampleBlock 4128 8 7 9 (some 8192)
    sample_run sample_chain (by decide) answered
  obtain ⟨nodes, tracks, _⟩ := tracks_of_run sample_run
  obtain rfl := tracks.chain.unique sample_chain tracks.null
  obtain ⟨after', _, returned', gone, _⟩ :=
    tracks.realloc_at (show (4128 : UInt64) ≠ 0 by decide) (show (8 : UInt64) ≠ 0 by decide) (by simp)
      8192 7 9
  obtain ⟨rfl, rfl⟩ := Prod.mk.inj (Option.some.inj (returned'.symm.trans returned))
  obtain ⟨front', other, follows⟩ := follows (by decide)
  have held := follows.chain.stored (show ((4128 : UInt64) - metaDataSize, other) ∈ _ by simp)
  rw [gone (by decide)] at held
  cases held

end Samples

end SystemProgramming.Memcheck
