import SystemProgramming.Foundations.Chain
import SystemProgramming.Memcheck.Allocations

/-! Leak accounting: what is in the list of the checker, and how much of it was not freed. -/

namespace SystemProgramming.Memcheck

open Foundations

/-- What is in a node of the list. -/
def allocation (node : UInt64 × Block) : Allocation :=
  ⟨node.1, node.2.node.requestSize, node.2.node.filename, node.2.node.instruction⟩

/-- The list of the checker has exactly these nodes, and its counters tell what they hold. -/
structure Tracks (st : State) (nodes : List (UInt64 × Block)) : Prop where
  chain : Chain (fun block => block.node.next) st.blocks 0 st.head nodes
  listed : ∀ address block, st.blocks address = some block → address ∈ nodes.map Prod.fst
  sized : ∀ node ∈ nodes, node.2.payload.length = node.2.node.requestSize.toNat
  placed : Placed (nodes.map allocation)
  balance : st.totalMemoryRequested - st.totalMemoryFreed =
    UInt64.ofNat (outstanding (nodes.map allocation))

section List

variable {st : State} {front back nodes : List (UInt64 × Block)} {block : Block}
  {blocks : UInt64 → Option Block} {it target first stop next : UInt64} {fuel : Nat}

/-- A search walks past all nodes if none is the one. -/
theorem search_absent (before : UInt64) (null : blocks 0 = none)
    (chain : Chain (fun block : Block => block.node.next) blocks 0 first nodes)
    (absent : target ∉ nodes.map Prod.fst) (enough : nodes.length < fuel) :
    search blocks target fuel first before = some none := by
  induction nodes generalizing first before fuel with
  | nil =>
    obtain ⟨fuel, rfl⟩ := Nat.exists_eq_add_of_lt enough
    rw [search, if_pos (show first = 0 from chain)]
  | cons head nodes ih =>
    obtain ⟨rfl, found, tail⟩ := chain
    rw [List.map_cons, List.mem_cons, not_or] at absent
    -- There is a node here, so this is not the end of the list.
    have present : head.1 ≠ 0 := by
      intro same
      rw [same, null] at found
      cases found
    cases fuel with
    | zero => exact absurd enough (Nat.not_lt_zero _)
    | succ fuel =>
      rw [search, if_neg present, if_neg (Ne.symm absent.1), found]
      exact ih head.1 tail absent.2 (Nat.lt_of_succ_lt_succ enough)

/-- A search stops at the node, and remembers the one before it. -/
theorem search_found (before : UInt64) (null : blocks 0 = none)
    (chain : Chain (fun block : Block => block.node.next) blocks 0 first
      (front ++ (target, block) :: back))
    (distinct : ((front ++ (target, block) :: back).map Prod.fst).Nodup)
    (enough : front.length < fuel) :
    search blocks target fuel first before =
      some (some ((front.map Prod.fst).getLastD before)) := by
  -- The induction is on the nodes in front, none of which is the one that is looked for.
  induction front generalizing first before fuel with
  | nil =>
    obtain ⟨fuel, rfl⟩ := Nat.exists_eq_add_of_lt enough
    obtain ⟨rfl, found, _⟩ := chain
    have present : target ≠ 0 := by
      intro same
      rw [same, null] at found
      cases found
    rw [search, if_neg present, if_pos rfl]
    rfl
  | cons head front ih =>
    obtain ⟨rfl, found, tail⟩ := chain
    have present : head.1 ≠ 0 := by
      intro same
      rw [same, null] at found
      cases found
    obtain ⟨once, distinct⟩ := List.nodup_cons.mp distinct
    have other : head.1 ≠ target := by
      intro same
      exact once (by simp [same])
    cases fuel with
    | zero => exact absurd enough (Nat.not_lt_zero _)
    | succ fuel =>
      rw [search, if_neg present, if_neg other, found, List.map_cons, List.getLastD_cons]
      exact ih head.1 tail distinct (Nat.lt_of_succ_lt_succ enough)

/-- A node and its payload, but for the link. -/
def outline (node : UInt64 × Block) : Allocation × List (Option UInt8) :=
  (allocation node, node.2.payload)

/-- With the link before it set, the front of the list leads somewhere else, and nothing else changes. -/
theorem link_spec (chain : Chain (fun block : Block => block.node.next) st.blocks stop st.head front)
    (distinct : (front.map Prod.fst).Nodup) (nonnull : ∀ node ∈ front, node.1 ≠ 0) (next : UInt64) :
    ∃ front', Chain (fun block : Block => block.node.next)
        (st.link ((front.map Prod.fst).getLastD 0) next).blocks next
        (st.link ((front.map Prod.fst).getLastD 0) next).head front' ∧
      front'.map outline = front.map outline ∧
      ∀ address, address ∉ front.map Prod.fst →
        (st.link ((front.map Prod.fst).getLastD 0) next).blocks address = st.blocks address := by
  rcases List.eq_nil_or_concat front with rfl | ⟨front, ⟨cell, last⟩, rfl⟩
  · -- There is no node before, so it is `head` that is set.
    exact ⟨[], rfl, rfl, fun _ _ => rfl⟩
  · rw [List.concat_eq_append] at *
    have ends : ((front ++ [(cell, last)]).map Prod.fst).getLastD 0 = cell := by simp
    have found := chain.stored (show (cell, last) ∈ front ++ [(cell, last)] by simp)
    have present : cell ≠ 0 := nonnull (cell, last) (by simp)
    rw [ends, State.link, if_neg present, found]
    refine ⟨_, chain.redirect distinct rfl, by simp [outline, allocation], ?_⟩
    intro address outside
    apply Function.update_of_ne
    intro same
    exact outside (by simp [same])

end List

section Calls

variable {st after : State} {nodes front front' back new : List (UInt64 × Block)} {block : Block}
  {it next address payload requestSize filename instruction : UInt64}

theorem addresses_eq (nodes : List (UInt64 × Block)) :
    (nodes.map allocation).map Allocation.address = nodes.map Prod.fst :=
  List.map_map

theorem outlines_addresses (outlines : front'.map outline = front.map outline) :
    front'.map Prod.fst = front.map Prod.fst := by
  have same := congrArg (List.map fun entry => entry.1.address) outlines
  rwa [List.map_map, List.map_map] at same

theorem outlines_allocations (outlines : front'.map outline = front.map outline) :
    front'.map allocation = front.map allocation := by
  have same := congrArg (List.map Prod.fst) outlines
  rwa [List.map_map, List.map_map] at same

/-- No node is listed twice. -/
theorem Tracks.nodup (tracks : Tracks st nodes) : (nodes.map Prod.fst).Nodup := by
  rw [← addresses_eq]
  exact tracks.placed.nodup

/-- No node is at `NULL`. -/
theorem Tracks.nonnull (tracks : Tracks st nodes) : ∀ node ∈ nodes, node.1 ≠ 0 :=
  fun node member => tracks.placed.nonnull (allocation node) (List.mem_map_of_mem member)

/-- No block is at `NULL`. -/
theorem Tracks.null (tracks : Tracks st nodes) : st.blocks 0 = none := by
  by_contra present
  obtain ⟨block, found⟩ := Option.ne_none_iff_exists'.mp present
  obtain ⟨node, member, same⟩ := List.mem_map.mp (tracks.listed 0 block found)
  exact tracks.nonnull node member same

/-- The blocks in use are the nodes of the list. -/
theorem Tracks.stored_iff (tracks : Tracks st nodes) :
    st.blocks address = some block ↔ (address, block) ∈ nodes := by
  refine ⟨fun found => ?_, tracks.chain.stored⟩
  obtain ⟨⟨_, other⟩, member, rfl⟩ := List.mem_map.mp (tracks.listed address block found)
  rw [tracks.chain.stored member] at found
  exact Option.some.inj found ▸ member

/-- What is free lies beside the nodes of the list. -/
theorem Tracks.apart (tracks : Tracks st nodes) {moves : Option UInt64} {request : Nat}
    (free : Free st moves request address) :
    ∀ node ∈ nodes, moves ≠ some node.1 → Apart address.toNat (metaDataSize.toNat + request)
      (allocation node).address.toNat (allocation node).extent := by
  intro node member stays
  have apart := free.apart node.1 node.2 (tracks.chain.stored member) stays
  rwa [tracks.sized node member] at apart

/--
The front of the list leads to new nodes and they lead to the back, where the block between them is
gone.
-/
theorem Tracks.splice (tracks : Tracks st (front ++ (it, block) :: back))
    (leads : Chain (fun block => block.node.next) after.blocks next after.head front')
    (outlines : front'.map outline = front.map outline)
    (middle : Chain (fun block => block.node.next) after.blocks block.node.next next new)
    (kept : ∀ address, address ∉ front.map Prod.fst → address ≠ it → address ∉ new.map Prod.fst →
      after.blocks address = st.blocks address)
    (gone : it ∈ new.map Prod.fst ∨ after.blocks it = none)
    (sized : ∀ node ∈ new, node.2.payload.length = node.2.node.requestSize.toNat)
    (placed : Placed ((front ++ (new ++ back)).map allocation))
    (balance : after.totalMemoryRequested - after.totalMemoryFreed =
      UInt64.ofNat (outstanding ((front ++ (new ++ back)).map allocation))) :
    ∃ nodes, Tracks after nodes ∧
      nodes.map allocation = (front ++ (new ++ back)).map allocation := by
  have allocations : (front' ++ (new ++ back)).map allocation =
      (front ++ (new ++ back)).map allocation := by
    rw [List.map_append, outlines_allocations outlines, ← List.map_append]
  obtain ⟨_, ahead, rfl, found, behind⟩ := Chain.append_iff.mp tracks.chain
  have before := tracks.nodup
  have distinct := placed.nodup
  rw [addresses_eq] at distinct
  simp only [List.map_append, List.map_cons, List.nodup_append, List.nodup_cons] at before distinct
  refine ⟨front' ++ (new ++ back), ⟨?_, ?_, ?_, ?_, ?_⟩, allocations⟩
  · refine Chain.append_iff.mpr ⟨next, leads, Chain.append_iff.mpr ⟨_, middle, ?_⟩⟩
    -- The nodes behind are not in front, not new, and not the one that is gone.
    apply behind.congr
    intro cell member
    apply kept
    · intro inFront
      exact before.2.2 cell inFront cell (by simp [member]) rfl
    · rintro rfl
      exact before.2.1.1 member
    · intro isNew
      exact distinct.2.1.2.2 cell isNew cell member rfl
  · intro address other holds
    rw [List.map_append, outlines_addresses outlines, List.map_append, List.mem_append,
      List.mem_append]
    by_cases inFront : address ∈ front.map Prod.fst
    · exact .inl inFront
    by_cases isNew : address ∈ new.map Prod.fst
    · exact .inr (.inl isNew)
    -- What is left was in the list before.
    have stays : address ≠ it := by
      rintro rfl
      rcases gone with named | nothing
      · exact isNew named
      · rw [nothing] at holds
        cases holds
    rw [kept address inFront stays isNew] at holds
    have listed := tracks.listed address other holds
    simp only [List.map_append, List.map_cons, List.mem_append, List.mem_cons] at listed
    exact .inr (.inr ((listed.resolve_left inFront).resolve_left stays))
  · intro node member
    rcases List.mem_append.mp member with inFront | rest
    · have same : outline node ∈ front.map outline := outlines ▸ List.mem_map_of_mem inFront
      obtain ⟨old, listed, equal⟩ := List.mem_map.mp same
      have size := tracks.sized old (List.mem_append_left _ listed)
      have payloads : old.2.payload = node.2.payload := congrArg Prod.snd equal
      have sizes : old.2.node.requestSize = node.2.node.requestSize :=
        congrArg (fun entry => entry.1.requestSize) equal
      rwa [payloads, sizes] at size
    · rcases List.mem_append.mp rest with isNew | inBack
      · exact sized node isNew
      · exact tracks.sized node (List.mem_append_right _ (List.mem_cons_of_mem _ inBack))
  · rwa [allocations]
  · rwa [allocations]

/-- A new block comes first in the list. -/
theorem Tracks.allocate (tracks : Tracks st nodes) (nonzero : requestSize ≠ 0)
    (free : Free st none requestSize.toNat address) (filename instruction : UInt64) :
    ∃ block after, miniMalloc (some address) requestSize filename instruction st =
        (address + metaDataSize, after) ∧ address + metaDataSize ≠ 0 ∧
      Tracks after ((address, block) :: nodes) ∧
      allocation (address, block) = ⟨address, requestSize, filename, instruction⟩ := by
  have positive : 0 < requestSize.toNat :=
    Nat.pos_of_ne_zero fun zero => nonzero (UInt64.toNat_inj.mp zero)
  have above : 0 < address.toNat :=
    Nat.pos_of_ne_zero fun zero => free.nonnull (UInt64.toNat_inj.mp zero)
  have inside : address.toNat + (32 + requestSize.toNat) ≤ 18446744073709551616 := free.inside
  have placed : Placed (⟨address, requestSize, filename, instruction⟩ :: nodes.map allocation) := by
    apply tracks.placed.cons free.nonnull free.inside
    intro other member
    obtain ⟨node, listed, rfl⟩ := List.mem_map.mp member
    exact tracks.apart free node listed nofun
  have unused : address ∉ nodes.map Prod.fst := by
    have distinct := placed.nodup
    rw [List.map_cons, addresses_eq, List.nodup_cons] at distinct
    exact distinct.1
  refine ⟨⟨⟨requestSize, filename, instruction, st.head⟩,
    List.replicate ((requestSize + metaDataSize).toNat - metaDataSize.toNat) none⟩, _,
    by rw [miniMalloc, if_neg nonzero], ?_, ⟨?_, ?_, ?_, placed, ?_⟩, rfl⟩
  · intro wrapped
    have := congrArg UInt64.toNat wrapped
    rw [UInt64.toNat_add, show metaDataSize.toNat = 32 from rfl,
      show (0 : UInt64).toNat = 0 from rfl] at this
    omega
  · refine ⟨rfl, Function.update_self _ _ _, tracks.chain.congr fun cell member => ?_⟩
    apply Function.update_of_ne
    rintro rfl
    exact unused member
  · intro other block found
    by_cases same : other = address
    · exact same ▸ List.mem_cons_self
    · have old : st.blocks other = some block := (Function.update_of_ne same _ _).symm.trans found
      exact List.mem_cons_of_mem _ (tracks.listed other block old)
  · rw [List.forall_mem_cons]
    refine ⟨?_, tracks.sized⟩
    -- The bytes that are asked for with a node do not wrap.
    rw [List.length_replicate, UInt64.toNat_add, show metaDataSize.toNat = 32 from rfl]
    show (requestSize.toNat + 32) % 18446744073709551616 - 32 = requestSize.toNat
    omega
  · have balance := tracks.balance
    rw [List.map_cons, outstanding_cons, UInt64.ofNat_add, ← balance]
    show st.totalMemoryRequested + requestSize - st.totalMemoryFreed =
      UInt64.ofNat requestSize.toNat + (st.totalMemoryRequested - st.totalMemoryFreed)
    rw [UInt64.ofNat_toNat]
    grind

/-- In front of a payload there is its node. -/
theorem node_of_payload (address : UInt64) : address + metaDataSize - metaDataSize = address := by
  grind

theorem payload_of_node (payload : UInt64) : payload - metaDataSize + metaDataSize = payload := by
  grind

/-- A block whose first bytes are zero. -/
def Block.cleared (block : Block) (count : Nat) : Block :=
  { block with
    payload := (List.replicate count (some 0)).take block.payload.length ++ block.payload.drop count }

/-- As many bytes are written as are there, at most. -/
theorem Block.length_cleared (block : Block) (count : Nat) :
    (block.cleared count).payload.length = block.payload.length := by
  rw [Block.cleared, List.length_append, List.length_take, List.length_replicate, List.length_drop]
  omega

/-- Clearing a payload changes the block in front of it. -/
theorem clear_blocks (held : st.blocks address = some block) (count : Nat) :
    (st.clear (address + metaDataSize) count).blocks =
      Function.update st.blocks address (some (block.cleared count)) := by
  rw [State.clear, node_of_payload]
  show Function.update _ _ _ = _
  rw [held]
  rfl

theorem clear_at (held : st.blocks address = some block) (count : Nat) :
    (st.clear (address + metaDataSize) count).blocks address = some (block.cleared count) := by
  rw [clear_blocks held, Function.update_self]

/-- Clearing a payload leaves the list as it is. -/
theorem Tracks.clear (tracks : Tracks st ((address, block) :: nodes)) (count : Nat) :
    ∃ cleared, Tracks (st.clear (address + metaDataSize) count) ((address, cleared) :: nodes) ∧
      allocation (address, cleared) = allocation (address, block) := by
  have distinct := tracks.nodup
  obtain ⟨same, found, tail⟩ := tracks.chain
  have sized := tracks.sized (address, block) List.mem_cons_self
  subst same
  -- The block that is cleared is the first one of the list.
  have others (other : UInt64) (apart : other ≠ st.head) :
      (st.clear (st.head + metaDataSize) count).blocks other = st.blocks other := by
    rw [clear_blocks found, Function.update_of_ne apart]
  refine ⟨block.cleared count, ⟨⟨rfl, clear_at found count, tail.congr fun cell member => ?_⟩, ?_, ?_,
    tracks.placed, tracks.balance⟩, rfl⟩
  · apply others
    rintro rfl
    exact (List.nodup_cons.mp distinct).1 member
  · intro other block' holds
    by_cases equal : other = st.head
    · exact equal ▸ List.mem_cons_self
    · rw [others other equal] at holds
      exact tracks.listed other block' holds
  · rw [List.forall_mem_cons]
    exact ⟨(block.length_cleared count).trans sized,
      fun node member => tracks.sized node (List.mem_cons_of_mem _ member)⟩

/-- Setting a link changes no counter. -/
theorem link_counters (st : State) (before next : UInt64) :
    (st.link before next).totalMemoryRequested = st.totalMemoryRequested ∧
      (st.link before next).totalMemoryFreed = st.totalMemoryFreed := by
  rw [State.link]
  split
  · exact ⟨rfl, rfl⟩
  · exact ⟨rfl, rfl⟩

/-- The list is short enough for a search to end. -/
theorem Tracks.length_lt (tracks : Tracks st nodes) : nodes.length < addressSpace := by
  have short := tracks.placed.length_lt
  rwa [List.length_map] at short

/-- A node that is in the list is found, with the one before it. -/
theorem Tracks.search_eq (tracks : Tracks st (front ++ (it, block) :: back)) :
    search st.blocks it addressSpace st.head 0 =
      some (some ((front.map Prod.fst).getLastD 0)) := by
  apply search_found 0 tracks.null tracks.chain tracks.nodup
  have short := tracks.length_lt
  rw [List.length_append] at short
  omega

/-- The first part of the list, made to lead elsewhere in a state that agrees with it. -/
theorem Tracks.redirected (tracks : Tracks st (front ++ (it, block) :: back)) (moved : State)
    (head : moved.head = st.head)
    (kept : ∀ cell ∈ front.map Prod.fst, moved.blocks cell = st.blocks cell) (next : UInt64) :
    ∃ front', Chain (fun block : Block => block.node.next)
        (moved.link ((front.map Prod.fst).getLastD 0) next).blocks next
        (moved.link ((front.map Prod.fst).getLastD 0) next).head front' ∧
      front'.map outline = front.map outline ∧
      ∀ address, address ∉ front.map Prod.fst →
        (moved.link ((front.map Prod.fst).getLastD 0) next).blocks address =
          moved.blocks address := by
  obtain ⟨_, ahead, _⟩ := Chain.append_iff.mp tracks.chain
  have distinct := tracks.nodup
  rw [List.map_append, List.nodup_append] at distinct
  have ahead' := ahead.congr kept
  rw [← head] at ahead'
  exact link_spec ahead' distinct.1 (fun node member =>
    tracks.nonnull node (List.mem_append_left _ member)) next

/-- Freeing a node that is in the list takes it out. -/
theorem Tracks.free (tracks : Tracks st (front ++ (payload - metaDataSize, block) :: back))
    (present : payload ≠ 0) :
    ∃ after nodes, miniFree payload st = some after ∧ Tracks after nodes ∧
      nodes.map allocation = (front ++ back).map allocation := by
  have found := tracks.chain.stored (show (payload - metaDataSize, block) ∈ _ by simp)
  have distinct := tracks.nodup
  rw [List.map_append, List.nodup_append] at distinct
  -- The node in front is linked past the freed one, and then the block is gone.
  obtain ⟨front', leads, outlines, kept⟩ := tracks.redirected st rfl (fun _ _ => rfl)
    block.node.next
  obtain ⟨requested, freed⟩ := link_counters st ((front.map Prod.fst).getLastD 0) block.node.next
  have returns : ∃ after, miniFree payload st = some after ∧
      after.blocks = Function.update (st.link ((front.map Prod.fst).getLastD 0)
        block.node.next).blocks (payload - metaDataSize) none ∧
      after.head = (st.link ((front.map Prod.fst).getLastD 0) block.node.next).head ∧
      after.totalMemoryRequested = st.totalMemoryRequested ∧
      after.totalMemoryFreed = st.totalMemoryFreed + block.node.requestSize := by
    have result : miniFree payload st = some
        { st.link ((front.map Prod.fst).getLastD 0) block.node.next with
          totalMemoryFreed := (st.link ((front.map Prod.fst).getLastD 0)
            block.node.next).totalMemoryFreed + block.node.requestSize
          blocks := Function.update (st.link ((front.map Prod.fst).getLastD 0)
            block.node.next).blocks (payload - metaDataSize) none } := by
      rw [miniFree, if_neg present]
      simp only [tracks.search_eq, found, Option.map_some]
    exact ⟨_, result, rfl, rfl, requested, congrArg (· + block.node.requestSize) freed⟩
  obtain ⟨after, returned, blocks, head, requested, freed⟩ := returns
  have same : payload - metaDataSize ∉ front.map Prod.fst := fun member =>
    distinct.2.2 _ member _ (by simp) rfl
  have spliced : ∃ nodes, Tracks after nodes ∧
      nodes.map allocation = (front ++ ([] ++ back)).map allocation := by
    refine @Tracks.splice st after front front' back [] block (payload - metaDataSize)
      block.node.next tracks ?_ outlines rfl ?_ ?_ ?_ ?_ ?_
    · rw [blocks, head]
      apply leads.congr
      intro cell member
      rw [outlines_addresses outlines] at member
      apply Function.update_of_ne
      rintro rfl
      exact same member
    · intro address inFront stays _
      rw [blocks, Function.update_of_ne stays, kept address inFront]
    · exact .inr (blocks ▸ Function.update_self _ _ _)
    · exact fun _ member => absurd member List.not_mem_nil
    · exact tracks.placed.sublist (((List.Sublist.refl front).append
        (List.sublist_cons_self _ back)).map allocation)
    · have balance := tracks.balance
      rw [List.map_append, List.map_cons, outstanding_append, outstanding_cons, UInt64.ofNat_add,
        UInt64.ofNat_add] at balance
      rw [requested, freed, List.nil_append, List.map_append, outstanding_append, UInt64.ofNat_add]
      have own : UInt64.ofNat (allocation (payload - metaDataSize, block)).requestSize.toNat =
        block.node.requestSize := UInt64.ofNat_toNat
      rw [own] at balance
      grind
  obtain ⟨nodes, tracks', listed⟩ := spliced
  exact ⟨after, nodes, returned, tracks', listed⟩

/-- A block that moves is found at its new address and not at the old one; the others stay. -/
theorem move_blocks (st : State) (it reMeta : UInt64) (block : Block) :
    (st.move it reMeta block).blocks reMeta = some block ∧
      (it ≠ reMeta → (st.move it reMeta block).blocks it = none) ∧
      ∀ other, other ≠ reMeta → other ≠ it →
        (st.move it reMeta block).blocks other = st.blocks other := by
  refine ⟨Function.update_self _ _ _, fun apart => ?_, fun other notNew notOld => ?_⟩
  · exact (Function.update_of_ne apart _ _).trans (Function.update_self _ _ _)
  · exact (Function.update_of_ne notNew _ _).trans (Function.update_of_ne notOld _ _)

/-- What the reallocation makes of a block, with its old link; what it adds is not initialised. -/
def Block.resized (block : Block) (requestSize filename instruction : UInt64) : Block where
  node := ⟨requestSize, filename, instruction, block.node.next⟩
  payload :=
    block.payload.take ((metaDataSize + requestSize).toNat - metaDataSize.toNat) ++
      List.replicate ((metaDataSize + requestSize).toNat - metaDataSize.toNat -
        block.payload.length) none

/-- A block that was resized has as many bytes as were asked for. -/
theorem Block.length_resized (above : 0 < address.toNat)
    (inside : address.toNat + (32 + requestSize.toNat) ≤ 18446744073709551616)
    (filename instruction : UInt64) :
    (block.resized requestSize filename instruction).payload.length = requestSize.toNat := by
  -- The sum with the size of a node does not wrap.
  rw [Block.resized, List.length_append, List.length_take, List.length_replicate,
    UInt64.toNat_add, show metaDataSize.toNat = 32 from rfl]
  omega

/-- The resized block lies apart from the others at the address that the allocator gives. -/
theorem Tracks.placed_resized
    (tracks : Tracks st (front ++ (payload - metaDataSize, block) :: back))
    (free : Free st (some (payload - metaDataSize)) requestSize.toNat address)
    (filename instruction : UInt64) :
    Placed ((front ++ ([(address, block.resized requestSize filename instruction)] ++ back)).map
      allocation) := by
  have placed := tracks.placed
  rw [List.map_append, List.map_cons] at placed
  rw [List.map_append, List.map_append, List.map_singleton, List.singleton_append]
  apply placed.replace free.nonnull free.inside
  intro other member
  rw [← List.map_append] at member
  obtain ⟨node, listed, rfl⟩ := List.mem_map.mp member
  -- The allocator knows that the old block is given up, and only that one.
  have stays := placed.address_ne (allocation node) (by rwa [← List.map_append])
  apply tracks.apart free node
  · simp only [List.mem_append, List.mem_cons] at listed ⊢
    exact listed.imp_right .inr
  · exact fun same => stays (Option.some.inj same).symm

/-- The call moves the block, links the node before it to its new address, and counts the change. -/
theorem Tracks.miniRealloc_eq
    (tracks : Tracks st (front ++ (payload - metaDataSize, block) :: back))
    (present : payload ≠ 0) (nonzero : requestSize ≠ 0) (address filename instruction : UInt64) :
    ∃ after, miniRealloc (some address) payload requestSize filename instruction st =
        some (payload, after) ∧
      after.blocks = ((st.move (payload - metaDataSize) address
        (block.resized requestSize filename instruction)).link
          ((front.map Prod.fst).getLastD 0) address).blocks ∧
      after.head = ((st.move (payload - metaDataSize) address
        (block.resized requestSize filename instruction)).link
          ((front.map Prod.fst).getLastD 0) address).head ∧
      after.totalMemoryRequested - after.totalMemoryFreed = st.totalMemoryRequested -
        st.totalMemoryFreed - block.node.requestSize + requestSize := by
  have found := tracks.chain.stored (show (payload - metaDataSize, block) ∈ _ by simp)
  obtain ⟨requested, freed⟩ := link_counters (st.move (payload - metaDataSize) address
    (block.resized requestSize filename instruction)) ((front.map Prod.fst).getLastD 0) address
  rw [miniRealloc, if_neg present, if_neg nonzero]
  simp only [tracks.search_eq, found, Option.map_some, payload_of_node]
  simp only [Block.resized] at requested freed ⊢
  -- A smaller block counts as memory that was freed, and a larger one as memory requested.
  split
  · refine ⟨_, rfl, rfl, rfl, ?_⟩
    simp only [requested, freed]
    simp only [State.move]
    grind
  · refine ⟨_, rfl, rfl, rfl, ?_⟩
    simp only [requested, freed]
    simp only [State.move]
    grind

/--
What resizing a node leaves in memory: the nodes in front of it lead to the new one, which lies where the
allocator has put it; the old one is gone if that is elsewhere, and nothing else has changed.
-/
theorem Tracks.resized (tracks : Tracks st (front ++ (payload - metaDataSize, block) :: back))
    (present : payload ≠ 0) (nonzero : requestSize ≠ 0) (outside : address ∉ front.map Prod.fst)
    (filename instruction : UInt64) :
    ∃ after front', miniRealloc (some address) payload requestSize filename instruction st =
        some (payload, after) ∧
      Chain (fun block : Block => block.node.next) after.blocks address after.head front' ∧
      front'.map outline = front.map outline ∧
      after.blocks address = some (block.resized requestSize filename instruction) ∧
      (payload - metaDataSize ≠ address → after.blocks (payload - metaDataSize) = none) ∧
      (∀ other, other ∉ front.map Prod.fst → other ≠ payload - metaDataSize → other ≠ address →
        after.blocks other = st.blocks other) ∧
      after.totalMemoryRequested - after.totalMemoryFreed = st.totalMemoryRequested -
        st.totalMemoryFreed - block.node.requestSize + requestSize := by
  have distinct := tracks.nodup
  simp only [List.map_append, List.map_cons, List.nodup_append, List.nodup_cons] at distinct
  have apart : payload - metaDataSize ∉ front.map Prod.fst :=
    fun member => distinct.2.2 _ member _ List.mem_cons_self rfl
  obtain ⟨after, returned, blocks, head, difference⟩ :=
    tracks.miniRealloc_eq present nonzero address filename instruction
  generalize block.resized requestSize filename instruction = resized at *
  -- The block is moved first, and then the node in front is linked to its new place.
  obtain ⟨new, old, others⟩ := move_blocks st (payload - metaDataSize) address resized
  have before : ∀ cell ∈ front.map Prod.fst,
      (st.move (payload - metaDataSize) address resized).blocks cell = st.blocks cell := by
    intro cell member
    apply others
    · rintro rfl
      exact outside member
    · rintro rfl
      exact apart member
  obtain ⟨front', leads, outlines, kept⟩ := tracks.redirected
    (st.move (payload - metaDataSize) address resized) rfl before address
  rw [← blocks, ← head] at leads
  rw [← blocks] at kept
  refine ⟨after, front', returned, leads, outlines, ?_, fun moved => ?_, ?_, difference⟩
  · rw [kept address outside, new]
  · rw [kept _ apart, old moved]
  · intro other inFront stays notNew
    rw [kept other inFront, others other notNew stays]

/-- Resizing a node that is in the list leaves it at its place in the list. -/
theorem Tracks.realloc (tracks : Tracks st (front ++ (payload - metaDataSize, block) :: back))
    (present : payload ≠ 0) (nonzero : requestSize ≠ 0)
    (free : Free st (some (payload - metaDataSize)) requestSize.toNat address)
    (filename instruction : UInt64) :
    ∃ value after nodes, miniRealloc (some address) payload requestSize filename instruction st =
        some (value, after) ∧ Tracks after nodes ∧
      nodes.map allocation =
        front.map allocation ++ ⟨address, requestSize, filename, instruction⟩ :: back.map allocation := by
  have above : 0 < address.toNat :=
    Nat.pos_of_ne_zero fun zero => free.nonnull (UInt64.toNat_inj.mp zero)
  have placed := tracks.placed_resized free filename instruction
  have length := @Block.length_resized block address requestSize above free.inside filename instruction
  have apart := placed.nodup
  rw [addresses_eq] at apart
  simp only [List.map_append, List.map_cons, List.nodup_append] at apart
  have outside : address ∉ front.map Prod.fst := fun member =>
    apart.2.2 address member address (by simp) rfl
  obtain ⟨after, front', returned, leads, outlines, new, old, others, difference⟩ :=
    tracks.resized present nonzero outside filename instruction
  have own : allocation (address, block.resized requestSize filename instruction) =
    ⟨address, requestSize, filename, instruction⟩ := rfl
  have link : (block.resized requestSize filename instruction).node.next = block.node.next := rfl
  generalize block.resized requestSize filename instruction = resized at *
  have spliced : ∃ nodes, Tracks after nodes ∧
      nodes.map allocation = (front ++ ([(address, resized)] ++ back)).map allocation := by
    refine @Tracks.splice st after front front' back [(address, resized)] block
      (payload - metaDataSize) address tracks leads outlines ⟨rfl, new, link⟩ ?_ ?_ ?_ placed ?_
    · intro other inFront stays notNew
      exact others other inFront stays (by simpa using notNew)
    · by_cases same : payload - metaDataSize = address
      · exact .inl (by simp [same])
      · exact .inr (old same)
    · rw [List.forall_mem_singleton, length]
      exact (congrArg (fun entry : Allocation => entry.requestSize.toNat) own).symm
    · -- The old size is taken from the memory in use, and the new one is added.
      have balance := tracks.balance
      rw [List.map_append, List.map_cons, outstanding_append, outstanding_cons, UInt64.ofNat_add,
        UInt64.ofNat_add] at balance
      rw [difference, List.map_append, List.map_append, outstanding_append, List.map_singleton,
        List.singleton_append, outstanding_cons, UInt64.ofNat_add, UInt64.ofNat_add, own]
      have given : UInt64.ofNat (allocation (payload - metaDataSize, block)).requestSize.toNat =
        block.node.requestSize := UInt64.ofNat_toNat
      have asked : UInt64.ofNat requestSize.toNat = requestSize := UInt64.ofNat_toNat
      rw [given] at balance
      rw [asked]
      grind
  obtain ⟨nodes, tracks', listed⟩ := spliced
  refine ⟨_, after, nodes, returned, tracks', ?_⟩
  rw [listed, List.map_append, List.map_append, List.map_singleton, List.singleton_append, own]

end Calls

section Runs

variable {st final : State} {nodes : List (UInt64 × Block)} {call : Call}
  {payload requestSize filename instruction : UInt64} {trace : List (Transition State Call)}

/-- The pointer that a call is given. -/
def Operation.pointer : Operation → UInt64
  | realloc payload _ _ _ | free payload => payload
  | malloc _ _ _ | calloc _ _ _ _ => 0

/-- A search for something that is not in the list finds nothing. -/
theorem Tracks.search_none (tracks : Tracks st nodes) {it : UInt64}
    (absent : it ∉ nodes.map Prod.fst) :
    search st.blocks it addressSpace st.head 0 = some none :=
  search_absent 0 tracks.null tracks.chain absent tracks.length_lt

/-- A pointer that is not in the list is counted, and nothing else happens. -/
theorem Tracks.stray (tracks : Tracks st nodes) (present : call.operation.pointer ≠ 0)
    (absent : call.operation.pointer - metaDataSize ∉ nodes.map Prod.fst) :
    execute call st = some (0, { st with invalidAddresses := st.invalidAddresses + 1 }) := by
  have searched := tracks.search_none absent
  obtain ⟨operation, given⟩ := call
  cases operation with
  | malloc requestSize filename instruction => exact absurd rfl present
  | calloc numElements elementSize filename instruction => exact absurd rfl present
  | free payload =>
    rw [execute]
    simp only [miniFree, if_neg (show payload ≠ 0 from present)]
    rw [show search st.blocks (payload - metaDataSize) addressSpace st.head 0 = some none from
      searched]
    rfl
  | realloc payload requestSize filename instruction =>
    rw [execute]
    simp only [miniRealloc, miniFree, if_neg (show payload ≠ 0 from present)]
    rw [show search st.blocks (payload - metaDataSize) addressSpace st.head 0 = some none from
      searched]
    -- Both a new size and none at all come to the same search.
    split
    · rfl
    · rfl

/-- A call of `mini_malloc` does to the list what a request does to the allocations. -/
theorem Tracks.malloc (tracks : Tracks st nodes) {given : Option UInt64}
    (free : ∀ address, given = some address → Free st none requestSize.toNat address)
    (filename instruction : UInt64) :
    ∃ nodes', Tracks (miniMalloc given requestSize filename instruction st).2 nodes' ∧
      nodes'.map allocation =
        acquire given requestSize filename instruction (nodes.map allocation) := by
  by_cases zero : requestSize = 0
  · simp only [miniMalloc, acquire, if_pos zero]
    exact ⟨nodes, tracks, rfl⟩
  · simp only [acquire, if_neg zero]
    cases given with
    | none =>
      rw [miniMalloc, if_neg zero]
      exact ⟨nodes, tracks, rfl⟩
    | some address =>
      obtain ⟨block, after, returns, _, tracks', named⟩ :=
        tracks.allocate zero (free address rfl) filename instruction
      rw [returns]
      refine ⟨_, tracks', ?_⟩
      rw [List.map_cons, named]

/-- So does a call of `mini_calloc`. -/
theorem Tracks.calloc (tracks : Tracks st nodes) {given : Option UInt64}
    {numElements elementSize : UInt64}
    (free : ∀ address, given = some address →
      Free st none (numElements * elementSize).toNat address)
    (filename instruction : UInt64) :
    ∃ nodes', Tracks (miniCalloc given numElements elementSize filename instruction st).2 nodes' ∧
      nodes'.map allocation =
        acquire given (numElements * elementSize) filename instruction (nodes.map allocation) := by
  by_cases zero : numElements * elementSize = 0
  · simp only [miniCalloc, miniMalloc, acquire, if_pos zero]
    exact ⟨nodes, tracks, rfl⟩
  · simp only [acquire, if_neg zero]
    cases given with
    | none =>
      rw [miniCalloc, miniMalloc, if_neg zero]
      exact ⟨nodes, tracks, rfl⟩
    | some address =>
      obtain ⟨block, after, returns, present, tracks', named⟩ :=
        tracks.allocate zero (free address rfl) filename instruction
      -- The new block comes from `mini_malloc`, and then its bytes are cleared.
      obtain ⟨cleared, tracks'', same⟩ := tracks'.clear (numElements * elementSize).toNat
      rw [miniCalloc]
      simp only [returns, if_pos present]
      refine ⟨_, tracks'', ?_⟩
      rw [List.map_cons, same, named]

/-- A node that is in the list cuts it in two. -/
theorem exists_split {it : UInt64} (listed : it ∈ nodes.map Prod.fst) :
    ∃ front block back, nodes = front ++ (it, block) :: back := by
  obtain ⟨⟨_, block⟩, member, rfl⟩ := List.mem_map.mp listed
  obtain ⟨front, back, split⟩ := List.append_of_mem member
  exact ⟨front, block, back, split⟩

/-- A call of `mini_free` does to the list what a release does to the allocations. -/
theorem Tracks.release (tracks : Tracks st nodes) (present : payload ≠ 0) :
    ∃ after nodes', miniFree payload st = some after ∧ Tracks after nodes' ∧
      nodes'.map allocation = release payload (nodes.map allocation) := by
  by_cases listed : payload - metaDataSize ∈ nodes.map Prod.fst
  · obtain ⟨front, block, back, rfl⟩ := exists_split listed
    obtain ⟨after, nodes', returns, tracks', same⟩ := tracks.free present
    refine ⟨after, nodes', returns, tracks', ?_⟩
    have placed := tracks.placed
    rw [List.map_append, List.map_cons] at placed ⊢
    rw [same, release_eq placed rfl, List.map_append]
  · have returns : miniFree payload st =
        some { st with invalidAddresses := st.invalidAddresses + 1 } := by
      rw [miniFree, if_neg present]
      simp only [tracks.search_none listed]
    refine ⟨_, nodes, returns, ?_, ?_⟩
    · exact ⟨tracks.chain, tracks.listed, tracks.sized, tracks.placed, tracks.balance⟩
    · rw [release_absent (by rwa [addresses_eq])]

/-- `realloc` of a size that is not zero replaces a block that is listed, and counts any other. -/
theorem Tracks.resize {given : Option UInt64} (tracks : Tracks st nodes) (present : payload ≠ 0)
    (nonzero : requestSize ≠ 0)
    (free : ∀ address, given = some address →
      Free st (some (payload - metaDataSize)) requestSize.toNat address)
    (filename instruction : UInt64) :
    ∃ value after nodes', miniRealloc given payload requestSize filename instruction st =
        some (value, after) ∧ Tracks after nodes' ∧
      nodes'.map allocation =
        Memcheck.resize given payload requestSize filename instruction (nodes.map allocation) := by
  by_cases listed : payload - metaDataSize ∈ nodes.map Prod.fst
  · obtain ⟨front, block, back, rfl⟩ := exists_split listed
    cases given with
    | none =>
      have found := tracks.chain.stored (show (payload - metaDataSize, block) ∈ _ by simp)
      simp only [miniRealloc, if_neg present, if_neg nonzero, tracks.search_eq, found]
      exact ⟨0, st, _, rfl, tracks, rfl⟩
    | some address =>
      obtain ⟨value, after, nodes', returns, tracks', same⟩ :=
        tracks.realloc present nonzero (free address rfl) filename instruction
      refine ⟨value, after, nodes', returns, tracks', ?_⟩
      have placed := tracks.placed
      rw [List.map_append, List.map_cons] at placed ⊢
      rw [same, resize_eq placed rfl]
  · -- Nothing in the list changes.
    simp only [miniRealloc, if_neg present, if_neg nonzero, tracks.search_none listed]
    refine ⟨_, _, nodes, rfl, ?_, ?_⟩
    · exact ⟨tracks.chain, tracks.listed, tracks.sized, tracks.placed, tracks.balance⟩
    · rw [resize_absent (by rwa [addresses_eq])]

/-- A call returns, and does to the list what it is for. -/
theorem Tracks.step (tracks : Tracks st nodes)
    (small : metaDataSize.toNat + call.operation.request < addressSpace) (fresh : Fresh st call) :
    ∃ value after nodes', execute call st = some (value, after) ∧ Tracks after nodes' ∧
      nodes'.map allocation = onLive (nodes.map allocation) call := by
  obtain ⟨operation, given⟩ := call
  cases operation with
  | malloc requestSize filename instruction =>
    obtain ⟨nodes', tracks', same⟩ := tracks.malloc fresh filename instruction
    exact ⟨_, _, nodes', rfl, tracks', same⟩
  | calloc numElements elementSize filename instruction =>
    -- The product does not wrap.
    have product : (numElements * elementSize).toNat = numElements.toNat * elementSize.toNat := by
      rw [UInt64.toNat_mul]
      apply Nat.mod_eq_of_lt
      exact Nat.lt_of_le_of_lt (Nat.le_add_left _ _) small
    have free : ∀ address, given = some address →
        Free st none (numElements * elementSize).toNat address := by
      rw [product]
      exact fresh
    obtain ⟨nodes', tracks', same⟩ := tracks.calloc free filename instruction
    exact ⟨_, _, nodes', rfl, tracks', same⟩
  | free payload =>
    rw [onLive]
    by_cases null : payload = 0
    · simp only [execute, miniFree, if_pos null]
      exact ⟨0, st, nodes, rfl, tracks, rfl⟩
    · obtain ⟨after, nodes', returns, tracks', same⟩ := tracks.release null
      simp only [execute, returns, if_neg null]
      exact ⟨0, after, nodes', rfl, tracks', same⟩
  | realloc payload requestSize filename instruction =>
    rw [onLive]
    simp only [execute]
    by_cases null : payload = 0
    · have free : ∀ address, given = some address → Free st none requestSize.toNat address := by
        intro address same
        have free := fresh address same
        rwa [Operation.moves, if_pos null] at free
      obtain ⟨nodes', tracks', same⟩ := tracks.malloc free filename instruction
      simp only [miniRealloc, if_pos null]
      exact ⟨_, _, nodes', rfl, tracks', same⟩
    by_cases zero : requestSize = 0
    · obtain ⟨after, nodes', returns, tracks', same⟩ := tracks.release null
      simp only [miniRealloc, if_neg null, if_pos zero, returns]
      exact ⟨0, after, nodes', rfl, tracks', same⟩
    have free : ∀ address, given = some address →
        Free st (some (payload - metaDataSize)) requestSize.toNat address := by
      intro address same
      have free := fresh address same
      rwa [Operation.moves, if_neg null] at free
    obtain ⟨value, after, nodes', returns, tracks', same⟩ :=
      tracks.resize null zero free filename instruction
    rw [if_neg null, if_neg zero]
    exact ⟨value, after, nodes', returns, tracks', same⟩

/-- At first the list is empty. -/
theorem start_tracks : Tracks start [] where
  chain := rfl
  listed _ _ := nofun
  sized := by simp
  placed := ⟨by simp, by simp, List.Pairwise.nil⟩
  balance := by decide

/-- The list holds, after every run, the allocations that were made and not yet released. -/
theorem tracks_of_run (run : Run Step start trace final) :
    ∃ nodes, Tracks final nodes ∧
      nodes.map allocation = live (trace.map fun taken => taken.action) := by
  refine @Run.history _ _ Step start final trace (fun trace st => ∃ nodes, Tracks st nodes ∧
    nodes.map allocation = live (trace.map fun taken => taken.action)) run
    ⟨[], start_tracks, rfl⟩ ?_
  rintro trace before call after ⟨nodes, tracks, same⟩ ⟨small, fresh, value, returns⟩
  obtain ⟨_, _, nodes', returned, tracks', now⟩ := tracks.step small fresh
  rw [returns] at returned
  obtain ⟨rfl, rfl⟩ := Prod.mk.inj (Option.some.inj returned)
  refine ⟨nodes', tracks', ?_⟩
  -- The newest call is the last one of the fold.
  rw [now, same, List.map_append, live, live, List.foldl_append]
  rfl

/--
In every run the list has no repetition, its nodes are the allocations made and not yet released, and
the counters differ by their sizes. Calls return, and a pointer that is not in the list is only
counted.
-/
theorem leak_accounting (run : Run Step start trace final) :
    ∃ nodes : List (UInt64 × Block),
      Chain (fun block => block.node.next) final.blocks 0 final.head nodes ∧
      (nodes.map Prod.fst).Nodup ∧
      nodes.map allocation = live (trace.map fun taken => taken.action) ∧
      (∀ address block, final.blocks address = some block ↔ (address, block) ∈ nodes) ∧
      (final.totalMemoryRequested - final.totalMemoryFreed).toNat =
        (nodes.map fun node => node.2.node.requestSize.toNat).sum ∧
      (∀ call : Call, metaDataSize.toNat + call.operation.request < addressSpace →
        Fresh final call → ∃ after, Step final call after) ∧
      ∀ call : Call, call.operation.pointer ≠ 0 →
        call.operation.pointer - metaDataSize ∉ nodes.map Prod.fst →
        execute call final =
          some (0, { final with invalidAddresses := final.invalidAddresses + 1 }) := by
  obtain ⟨nodes, tracks, same⟩ := tracks_of_run run
  refine ⟨nodes, tracks.chain, tracks.nodup, same, fun _ _ => tracks.stored_iff, ?_, ?_, ?_⟩
  · rw [tracks.balance, UInt64.toNat_ofNat_of_lt' tracks.placed.outstanding_lt, outstanding,
      List.map_map]
    rfl
  · intro call small fresh
    obtain ⟨value, after, _, returns, _⟩ := tracks.step small fresh
    exact ⟨after, small, fresh, value, returns⟩
  · exact fun call present absent => tracks.stray present absent

def sampleCall : Call := ⟨.malloc 5 7 9, some 4096⟩

def sampleAfter : State := (miniMalloc (some 4096) 5 7 9 start).2

theorem sample_run : Run Step start [⟨start, sampleCall, sampleAfter⟩] sampleAfter := by
  have called : Step start sampleCall sampleAfter := by
    refine ⟨by decide, ?_, _, rfl⟩
    intro address given
    obtain rfl := Option.some.inj given
    exact ⟨by decide, by decide, fun _ _ => nofun⟩
  exact Run.start.next called

/-- Five bytes are asked for, and then something is freed that was never allocated. -/
theorem leak_accounting_malloc : ∃ nodes : List (UInt64 × Block),
    Chain (fun block => block.node.next) sampleAfter.blocks 0 sampleAfter.head nodes ∧
    nodes.map allocation = [⟨4096, 5, 7, 9⟩] ∧
    execute ⟨.free 100, none⟩ sampleAfter = some (0, { sampleAfter with invalidAddresses := 1 }) := by
  obtain ⟨nodes, chain, _, same, _, _, _, stray⟩ := leak_accounting sample_run
  have addresses := congrArg (List.map Allocation.address) same
  rw [addresses_eq] at addresses
  refine ⟨nodes, chain, same, stray ⟨.free 100, none⟩ (by decide) ?_⟩
  rw [addresses]
  decide

end Runs

end SystemProgramming.Memcheck
