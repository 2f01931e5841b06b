import SystemProgramming.Malloc.Within
import SystemProgramming.Malloc.Locality

/-! `free` on the machine that allows only the heap: every access but one is inside. -/

namespace SystemProgramming.Malloc

open Foundations Faulting Machine

variable {h g : Heap} {client : Client} {trace : List (Transition Client Event)}
  {blocks front back : List Block} {list earlier later : List Nat} {block prior next : Block}
  {machine : Machine} {kernel : Heap → Nat → Nat × Heap}
  {node cur newData previous size rest beforeStart afterEnd pointer : Nat}

namespace Machine

/-- Linking touches the new node and the old first one. -/
theorem linkAtHead_run (opens : machine.Opens node)
    (first : h.head ≠ null → machine.Opens h.head) :
    (machine.linkAtHead node).run h = .ok ((), Malloc.linkAtHead h node) := by
  unfold linkAtHead Malloc.linkAtHead
  rw [run_bind_ok run_head]
  by_cases empty : h.head = null
  · rw [if_pos empty, if_pos empty, run_bind_ok run_setHead, run_bind_ok (run_set opens),
      run_set opens]
  · have opened := first empty
    rw [if_neg empty, if_neg empty, run_bind_ok run_head, run_bind_ok (run_set opens),
      run_bind_ok (run_set opens), run_bind_ok run_head]
    -- Neither write moves `head`.
    simp only [Heap.set_head]
    rw [run_bind_ok (run_set opened), run_setHead]

/-- Unlinking a node of the list touches nodes of the list. -/
theorem deleteDataNode_run (nodes : Nodes (earlier ++ node :: later))
    (links : FreeLinks h (earlier ++ node :: later))
    (opens : ∀ other ∈ earlier ++ node :: later, machine.Opens other) :
    (machine.deleteDataNode node).run h = .ok ((), Malloc.deleteDataNode h node) := by
  have member : node ∈ earlier ++ node :: later := by simp
  have own := opens node member
  have nonnull := nodes.nonnull member
  obtain ⟨priorMember, nextMember⟩ := links.neighbours_mem member
  have again := fun field => (@FreeLinks.reread h earlier later node (h.get .before node) links nodes
    field).1
  unfold deleteDataNode Malloc.deleteDataNode
  rw [if_neg nonnull, if_neg nonnull, run_bind_ok (run_get own), run_bind_ok (run_get own)]
  simp only [Heap.before, Heap.after]
  -- The four branches of the source are the four cases of missing neighbours.
  by_cases noPrior : h.get .before node = null
  · by_cases noNext : h.get .after node = null
    · simp only [noPrior, noNext, and_self, if_true]
      rw [run_setHead]
    · have next := opens _ (nextMember noNext)
      simp only [noPrior, noNext, ne_eq, not_true_eq_false, not_false_eq_true, false_and, and_false,
        if_true, if_false]
      rw [run_bind_ok (run_set next), run_bind_ok (run_get own), run_setHead]
  · have prior := opens _ (priorMember noPrior)
    by_cases noNext : h.get .after node = null
    · simp only [noPrior, noNext, ne_eq, not_true_eq_false, false_and, and_false, if_false]
      rw [run_set prior]
    · have next := opens _ (nextMember noNext)
      simp only [noPrior, noNext, ne_eq, not_false_eq_true, and_self, if_true, if_false]
      rw [run_bind_ok (run_set next), run_bind_ok (run_get own), run_bind_ok (run_get own), again,
        again, run_set prior]

/-- Taking a node's place touches its neighbours in the list. -/
theorem relistSplit_run (nodes : Nodes (earlier ++ node :: later))
    (links : FreeLinks h (earlier ++ node :: later))
    (opens : ∀ other ∈ earlier ++ node :: later, machine.Opens other) :
    (machine.relistSplit node newData).run h = .ok ((), Malloc.relistSplit h node newData) := by
  have member : node ∈ earlier ++ node :: later := by simp
  have own := opens node member
  obtain ⟨priorMember, nextMember⟩ := links.neighbours_mem member
  have again := fun field => (@FreeLinks.reread h earlier later node newData links nodes field).2
  unfold relistSplit Malloc.relistSplit
  rw [run_bind_ok (run_get own), run_bind_ok (run_get own)]
  simp only [Heap.before, Heap.after]
  -- Only the neighbours that the node has are written to.
  by_cases noPrior : h.get .before node = null
  · by_cases noNext : h.get .after node = null
    · simp only [noPrior, noNext, ne_eq, not_true_eq_false, and_self, if_false]
      rw [run_setHead]
    · have next := opens _ (nextMember noNext)
      simp only [noPrior, noNext, ne_eq, not_true_eq_false, not_false_eq_true, false_and, if_true,
        if_false]
      rw [run_bind_ok (run_set next), run_setHead]
  · have prior := opens _ (priorMember noPrior)
    by_cases noNext : h.get .after node = null
    · simp only [noPrior, noNext, ne_eq, not_true_eq_false, not_false_eq_true, and_false, if_true,
        if_false]
      rw [run_set prior]
    · have next := opens _ (nextMember noNext)
      simp only [noPrior, noNext, ne_eq, not_false_eq_true, and_self, if_true]
      rw [run_bind_ok (run_set prior), run_bind_ok (run_get own), again, run_set next]

/-- Joining with the block in front touches both headers and the tag of the freed block. -/
theorem mergeWithBefore_run (before : g.get .before cur = previous) (sizeIs : g.get .size cur = size)
    (apart : previous + 40 ≤ cur) (own : machine.Opens cur) (other : machine.Opens previous)
    (tag : machine.allows (wrap (cur + structSize + size)) dataSizeSize = true) :
    (machine.mergeWithBefore cur).run g = .ok ((), Malloc.mergeWithBefore g cur) := by
  have away : Apart cur previous := .inr (.inr (by omega))
  have readBefore : ∀ value, (g.set .size previous value).get .before cur = previous :=
    fun value => by rw [Heap.get_set_other away (.inl (by decide)), before]
  have readSize : ∀ value, (g.set .size previous value).get .size cur = size := fun value => by
    rw [Heap.get_set_other away (.inr (by omega)), sizeIs]
  unfold mergeWithBefore Malloc.mergeWithBefore
  simp only [Heap.before, Heap.size]
  rw [run_bind_ok (run_get own), before, run_bind_ok (run_get other), run_bind_ok (run_get own),
    run_bind_ok (run_set other), run_bind_ok (run_get own), run_bind_ok (run_get own), readBefore,
    readSize, run_bind_ok (run_get other), run_bind_ok (run_setTag tag), run_set own]

/-- Joining with the block behind touches both headers, its tag, and its neighbours in the list. -/
theorem mergeWithAfter_run (after : g.get .after cur = node) (restSize : g.get .size node = rest)
    (apart : cur + 40 ≤ node) (bound : node + 40 + rest ≤ 2 ^ 63) (own : machine.Opens cur)
    (other : machine.Opens node)
    (tag : machine.allows (wrap (node + structSize + rest)) dataSizeSize = true)
    (relist : ∀ total value prior next, (machine.relistSplit node cur).run
      ((((g.set .size cur total).setTag (wrap (node + structSize + rest)) value).set .before cur
        prior).set .after cur next) =
      .ok ((), Malloc.relistSplit ((((g.set .size cur total).setTag (wrap (node + structSize + rest))
        value).set .before cur prior).set .after cur next) node cur)) :
    (machine.mergeWithAfter cur).run g = .ok ((), Malloc.mergeWithAfter g cur) := by
  have away : Apart node cur := .inr (.inr (by omega))
  have place : wrap (node + structSize + rest) = node + 32 + rest :=
    wrap_of_lt (by simp only [structSize]; omega)
  -- The new size is written first; the link, and the size behind, still read the same.
  have readAfter : ∀ value, (g.set .size cur value).get .after cur = node := fun value => by
    rw [Heap.get_set_other (.inl rfl) (.inl (by decide)), after]
  have readRest : ∀ value, (g.set .size cur value).get .size node = rest := fun value => by
    rw [Heap.get_set_other away (.inr (by omega)), restSize]
  have keepAfter : ∀ total value, ((g.set .size cur total).setTag (wrap (node + structSize + rest))
      value).get .after cur = node := fun total value => by
    rw [Heap.get_setTag (by omega), readAfter]
  unfold mergeWithAfter Malloc.mergeWithAfter
  simp only [Heap.before, Heap.after, Heap.size]
  rw [run_bind_ok (run_get own), run_bind_ok (run_get own), after, run_bind_ok (run_get other),
    run_bind_ok (run_set own), run_bind_ok (run_get own), readAfter, run_bind_ok (run_get other),
    readRest, run_bind_ok (run_get own), run_bind_ok (run_setTag tag), run_bind_ok (run_get own),
    keepAfter, run_bind_ok (run_get other), run_bind_ok (run_set own), run_bind_ok (run_get other),
    run_bind_ok (run_set own), run_bind_ok (relist _ _ _ _), run_set other]

/-- Joining with both touches three headers, the tag behind, and the neighbours in the list. -/
theorem mergeBoth_run (before : g.get .before cur = previous) (after : g.get .after cur = node)
    (restSize : g.get .size node = rest) (apart : previous + 40 ≤ cur) (behind : cur + 40 ≤ node)
    (bound : node + 40 + rest ≤ 2 ^ 63) (own : machine.Opens cur) (first : machine.Opens previous)
    (last : machine.Opens node)
    (tag : machine.allows (wrap (node + structSize + rest)) dataSizeSize = true)
    (delete : ∀ total value, (machine.deleteDataNode node).run
      ((g.set .size previous total).setTag (wrap (node + structSize + rest)) value) =
      .ok ((), Malloc.deleteDataNode
        ((g.set .size previous total).setTag (wrap (node + structSize + rest)) value) node)) :
    (machine.mergeBoth cur).run g = .ok ((), Malloc.mergeBoth g cur) := by
  have away : Apart cur previous := .inr (.inr (by omega))
  have nodeAway : Apart node previous := .inr (.inr (by omega))
  have place : wrap (node + structSize + rest) = node + 32 + rest :=
    wrap_of_lt (by simp only [structSize]; omega)
  -- The new size is written first, and what is read after it is what was there before.
  have readBefore : ∀ value, (g.set .size previous value).get .before cur = previous :=
    fun value => by rw [Heap.get_set_other away (.inl (by decide)), before]
  have readAfter : ∀ value, (g.set .size previous value).get .after cur = node := fun value => by
    rw [Heap.get_set_other away (.inl (by decide)), after]
  have readRest : ∀ value, (g.set .size previous value).get .size node = rest := fun value => by
    rw [Heap.get_set_other nodeAway (.inr (by omega)), restSize]
  have keepAfter : ∀ total value, ((g.set .size previous total).setTag
      (wrap (node + structSize + rest)) value).get .after cur = node := fun total value => by
    rw [Heap.get_setTag (by omega), readAfter]
  unfold mergeBoth Malloc.mergeBoth
  simp only [Heap.before, Heap.after, Heap.size]
  rw [run_bind_ok (run_get own), before, run_bind_ok (run_get own), after,
    run_bind_ok (run_get first), run_bind_ok (run_get own), run_bind_ok (run_get last),
    run_bind_ok (run_set first), run_bind_ok (run_get own), readAfter, run_bind_ok (run_get last),
    readRest, run_bind_ok (run_get own), readBefore, run_bind_ok (run_get first),
    run_bind_ok (run_setTag tag), run_bind_ok (run_get own), keepAfter, run_bind_ok (delete _ _),
    run_bind_ok (run_set own), run_set last]

/-- Joining runs where both tests run and the join that they choose runs. -/
theorem mergeGetAddrs_run {joinsAfter joinsBefore : Prop} [Decidable joinsAfter]
    [Decidable joinsBefore]
    (testAfter : (machine.joinsAfter cur afterEnd).run g = .ok (decide joinsAfter, g))
    (testBefore : (machine.joinsBefore cur beforeStart).run g = .ok (decide joinsBefore, g))
    (afterIs : (afterEnd ≤ g.brk ∧ g.free (g.after cur) ≠ 0) ↔ joinsAfter)
    (beforeIs : (beforeStart ≥ g.start ∧ g.free (g.before cur) ≠ 0) ↔ joinsBefore)
    (alone : ¬ joinsAfter → ¬ joinsBefore →
      (machine.linkAtHead cur).run g = .ok ((), Malloc.linkAtHead g cur))
    (withAfter : joinsAfter → ¬ joinsBefore →
      (machine.mergeWithAfter cur).run g = .ok ((), Malloc.mergeWithAfter g cur))
    (withBefore : ¬ joinsAfter → joinsBefore →
      (machine.mergeWithBefore cur).run g = .ok ((), Malloc.mergeWithBefore g cur))
    (both : joinsAfter → joinsBefore →
      (machine.mergeBoth cur).run g = .ok ((), Malloc.mergeBoth g cur)) :
    (machine.mergeGetAddrs cur beforeStart afterEnd).run g =
      .ok ((), Malloc.mergeGetAddrs g cur beforeStart afterEnd) := by
  obtain ⟨whenBoth, whenAfter, whenBefore, whenAlone⟩ := mergeGetAddrs_cases afterIs beforeIs
  unfold mergeGetAddrs
  -- The order of the tests is that of the source; their outcomes choose the join.
  by_cases after : joinsAfter
  · by_cases before : joinsBefore
    · simp only [run_bind, run_pure, testAfter, testBefore, after, before, decide_true,
        if_true, Bool.false_eq_true, if_false, both after before, whenBoth after before]
    · simp only [run_bind, run_pure, testAfter, testBefore, after, before, decide_true,
        decide_false, if_true, Bool.false_eq_true, if_false, withAfter after before,
        whenAfter after before]
  · by_cases before : joinsBefore
    · simp only [run_bind, run_pure, testAfter, testBefore, after, before, decide_true,
        decide_false, Bool.not_true, if_true, Bool.false_eq_true, if_false,
        withBefore after before, whenBefore after before]
    · simp only [run_bind, run_pure, testAfter, testBefore, after, before, decide_false,
        Bool.not_false, if_true, Bool.false_eq_true, if_false, alone after before,
        whenAlone after before]

end Machine

/-- The tag in front of the first block lies below the heap, so `free` ends there. -/
theorem Represents.free_first (rep : Represents h (block :: back) list) :
    ((within h.base h.brk kernel).free block.payload).run h = .error (.fault (h.base - 8)) := by
  have reads := @Represents.freeReads h [] back list block rep
  have own := @Represents.opens_block _ _ _ _ kernel rep (show block ∈ block :: back by simp)
  have start : block.addr = h.base := rep.tiles.1
  have low := rep.low
  have below : ((within h.base h.brk kernel).tag (wrapSub block.addr dataSizeSize)).run
      (h.set .free block.addr 1) = .error (.fault (h.base - 8)) := by
    unfold Machine.tag
    rw [reads.tagAddr, start]
    exact run_bind_error (within_check (.inl (by omega)))
  unfold Machine.free
  rw [if_neg reads.nonnull, reads.header, run_bind_ok (run_set own)]
  exact run_bind_error below

/-- The block at the base is the first one. -/
theorem Represents.first_block (rep : Represents h blocks list) (member : block ∈ blocks)
    (place : block.addr = h.base) : ∃ back, blocks = block :: back := by
  have tiles := rep.tiles
  cases blocks with
  | nil => cases member
  | cons first back =>
    have starts : first.addr = h.base := tiles.1
    have same : block = first :=
      tiles.eq_of_low_eq member List.mem_cons_self (place.trans starts.symm)
    exact ⟨back, by rw [same]⟩

/-- Where `free` computes the tag of a block, it is the tag. -/
theorem Represents.wrap_tag (rep : Represents h blocks list) (member : block ∈ blocks) :
    wrap (block.addr + structSize + block.size) = block.tagAddr := by
  have bounds := rep.bounds member
  have high := rep.high
  have limit := rep.limit
  simp only [Block.stop] at bounds
  exact wrap_of_lt (by simp only [structSize]; omega)

/-- The tag of a block lies inside the heap. -/
theorem Represents.allows_tag (rep : Represents h blocks list) (member : block ∈ blocks) :
    (within h.base h.brk kernel).allows (wrap (block.addr + structSize + block.size)) dataSizeSize =
      true := by
  have bounds := rep.bounds member
  rw [rep.wrap_tag member]
  simp only [Block.stop] at bounds
  exact within_allows (by simp only [Block.tagAddr]; omega)
    (by simp only [Block.tagAddr, dataSizeSize]; omega)

/-- A node of the free list does not reach into the tag of a block. -/
theorem Represents.wrapped_tag_outside (rep : Represents h blocks list) (member : block ∈ blocks) :
    ∀ link ∈ list, wrap (block.addr + structSize + block.size) + 8 ≤ link ∨
      link + 32 ≤ wrap (block.addr + structSize + block.size) := by
  intro link inList
  have outside := rep.node_outside inList member
  rw [rep.wrap_tag member]
  simp only [Block.stop, Block.tagAddr] at outside ⊢
  omega

/-- Joining a block that is not the first one touches only the heap. -/
theorem Represents.joins_run (rep : Represents h (front ++ prior :: block :: back) list)
    (live : block.free = false) (unlinked : Unlinked h g list block prior.addr block.stop) :
    ((within h.base h.brk kernel).mergeGetAddrs block.addr prior.addr (block.stop + 1024)).run g =
      .ok ((), Malloc.mergeGetAddrs g block.addr prior.addr (block.stop + 1024)) := by
  have priorIn : prior ∈ front ++ prior :: block :: back := by simp
  have member : block ∈ front ++ prior :: block :: back := by simp
  have own := @Represents.opens_block _ _ _ _ kernel rep member
  have first := @Represents.opens_block _ _ _ _ kernel rep priorIn
  obtain ⟨_, _, _, starts, tail⟩ := Tiles.append_iff.mp rep.tiles
  have place : block.addr = prior.stop := tail.1
  have bounds := rep.bounds member
  have high := rep.high
  have limit := rep.limit
  have apart := rep.header_apart member
  have absent := rep.live_outside member live
  simp only [Block.stop] at bounds place
  -- Where the block behind is to be joined, it is a node of the list.
  have behind : block.stop + 1024 ≤ g.brk ∧ g.free (g.after block.addr) ≠ 0 →
      ∃ next rest, back = next :: rest ∧ next.addr = block.stop ∧ next.addr ∈ list := by
    intro joins
    rw [unlinked.process.brk, Heap.free, Heap.after, unlinked.after] at joins
    have whole : front ++ prior :: block :: back = (front ++ [prior]) ++ block :: back := by simp
    rw [whole] at rep
    obtain ⟨next, isNext, reaches⟩ := (after_test rep unlinked).mp joins
    obtain ⟨rest, rfl⟩ := List.head?_eq_some_iff.mp isNext
    exact ⟨next, rest, rfl, rep.tiles.next.1,
      (rep.exactly _).mpr ⟨next, by simp, rfl, reaches.1⟩⟩
  apply mergeGetAddrs_run (joinsAfter_run own ?openAfter) (joinsBefore_run own ?openBefore) Iff.rfl
    Iff.rfl ?alone ?withAfter ?withBefore ?both
  case openAfter =>
    intro reached
    rw [unlinked.process.brk] at reached
    rw [unlinked.after]
    exact within_opens (by simp only [Block.stop]; omega) (by omega)
  case openBefore =>
    intro _
    rw [unlinked.before]
    exact first
  case alone =>
    intro _ _
    exact linkAtHead_run own fun nonempty => rep.opens_node (unlinked.links.head_mem nonempty)
  case withBefore =>
    intro _ _
    exact mergeWithBefore_run unlinked.before unlinked.size (by omega) own first
      (rep.allows_tag member)
  case withAfter =>
    intro joins _
    obtain ⟨next, rest, rfl, adjacent, inList⟩ := behind joins
    have second : next ∈ front ++ prior :: block :: next :: rest := by simp
    have nextStored := unlinked.stored rep second (.inr (Nat.le_of_eq adjacent.symm))
    have nextBounds := rep.bounds second
    have tagAway := rep.wrapped_tag_outside second
    obtain ⟨earlier, later, rfl⟩ := List.append_of_mem inList
    rw [← adjacent] at unlinked
    simp only [Block.stop] at nextBounds adjacent
    apply mergeWithAfter_run unlinked.after nextStored.size (by omega) (by omega) own
      (rep.opens_block second) (rep.allows_tag second)
    intro total value prior next
    exact relistSplit_run rep.nodes ((((unlinked.links.set apart (.inl rfl)).setTag tagAway).set apart
      (.inr (.inr absent))).set apart (.inr (.inr absent))) fun other inside => rep.opens_node inside
  case both =>
    intro joins _
    obtain ⟨next, rest, rfl, adjacent, inList⟩ := behind joins
    have second : next ∈ front ++ prior :: block :: next :: rest := by simp
    have nextStored := unlinked.stored rep second (.inr (Nat.le_of_eq adjacent.symm))
    have nextBounds := rep.bounds second
    have priorApart := rep.header_apart priorIn
    have tagAway := rep.wrapped_tag_outside second
    obtain ⟨earlier, later, rfl⟩ := List.append_of_mem inList
    rw [← adjacent] at unlinked
    simp only [Block.stop] at nextBounds adjacent
    apply mergeBoth_run unlinked.before unlinked.after nextStored.size (by omega) (by omega) (by omega)
      own first (rep.opens_block second) (rep.allows_tag second)
    intro total value
    exact deleteDataNode_run rep.nodes ((unlinked.links.set priorApart (.inl rfl)).setTag tagAway)
      fun other inside => rep.opens_node inside

/-- Of any other block, `free` touches only the heap. -/
theorem Represents.free_run (rep : Represents h (front ++ prior :: block :: back) list)
    (live : block.free = false) :
    ((within h.base h.brk kernel).free block.payload).run h =
      .ok ((), Malloc.free h block.payload) := by
  have member : block ∈ front ++ prior :: block :: back := by simp
  have own := @Represents.opens_block _ _ _ _ kernel rep member
  have bounds := rep.bounds member
  have ahead := rep.bounds (show prior ∈ front ++ prior :: block :: back by simp)
  have high := rep.high
  have limit := rep.limit
  obtain ⟨_, _, _, _, tail⟩ := Tiles.append_iff.mp rep.tiles
  have place : block.addr = prior.stop := tail.1
  simp only [Block.stop] at bounds ahead place
  have unlinked := unlinked_spec rep member live (show prior.addr < 2 ^ 64 by omega)
    (show block.stop < 2 ^ 64 by simp only [Block.stop]; omega)
  have merges := @Represents.joins_run _ _ _ _ _ _ _ kernel rep live unlinked
  have previous : physicalBefore (front ++ [prior]) block.addr = prior.addr := by
    simp [physicalBefore]
  have whole : front ++ prior :: block :: back = (front ++ [prior]) ++ block :: back := by simp
  rw [whole] at rep
  have reads := rep.freeReads
  have result := free_eq rep
  rw [previous] at reads result
  have tag : (within h.base h.brk kernel).allows (wrapSub block.addr dataSizeSize) dataSizeSize =
      true := by
    rw [reads.tagAddr]
    exact within_allows (by omega) (by simp only [dataSizeSize]; omega)
  have before := reads.before
  have after := reads.after
  -- The header is rewritten, step by step, and then the block is joined with its neighbours.
  rw [result]
  unfold Malloc.unlinked at before after merges ⊢
  unfold Machine.free
  rw [if_neg reads.nonnull, reads.header, run_bind_ok (run_set own), run_bind_ok (run_tag tag),
    reads.previous, run_bind_ok (run_set own), run_bind_ok (run_get own), reads.following,
    run_bind_ok (run_set own), run_bind_ok (run_get own), before, run_bind_ok (run_get own), after,
    reads.far, run_bind_ok merges, run_set own]

/--
What a program may expect of `free`: it runs on the heap alone, and it does the same whatever bytes
lie around the heap.
-/
structure StaysInside (h : Heap) (pointer : Nat) : Prop where
  inside : ((within h.start h.brk sbrk).free pointer).run h = .ok ((), Malloc.free h pointer)
  independent : ∀ outer t, Agrees h.start h.brk outer h t →
    Agrees h.start h.brk outer (Malloc.free h pointer) (Malloc.free t pointer)

/-- A run inside the heap does not depend on the bytes around it. -/
theorem StaysInside.of_run
    (inside : ((within h.start h.brk sbrk).free pointer).run h = .ok ((), Malloc.free h pointer)) :
    StaysInside h pointer where
  inside := inside
  independent outer t agrees := by
    obtain ⟨t', returned, again⟩ := local_free h t agrees () (Malloc.free h pointer) inside
    rw [free_unguarded] at returned
    obtain ⟨_, rfl⟩ := Prod.mk.inj (Except.ok.inj returned)
    exact again

/-- In every run, `free` of a live pointer stays inside the heap unless its block is the first one. -/
theorem free_inside_iff (fresh : Fresh h) (run : Run Step ⟨h, []⟩ trace client)
    (known : pointer ∈ held client.live) :
    StaysInside client.heap pointer ↔ pointer ≠ client.heap.start + structSize := by
  obtain ⟨blocks, list, consistent⟩ := consistent_of_run fresh run
  have rep := consistent.rep
  obtain ⟨block, member, live, rfl⟩ := consistent.owns.block_of_held known
  have start := rep.start_eq member
  obtain ⟨front, back, rfl⟩ := List.append_of_mem member
  -- Either no block lies in front, or the last of those that do is the physical neighbour.
  cases front using List.reverseRecOn with
  | nil =>
    have place : block.addr = client.heap.base := rep.tiles.1
    apply iff_of_false
    · intro stays
      have inside := stays.inside
      rw [start, rep.free_first] at inside
      cases inside
    · intro apart
      rw [start, ← place] at apart
      exact apart rfl
  | append_singleton front prior =>
    have whole : front ++ [prior] ++ block :: back = front ++ prior :: block :: back := by simp
    rw [whole] at rep
    have bounds := rep.bounds (show prior ∈ front ++ prior :: block :: back by simp)
    obtain ⟨_, _, _, _, tail⟩ := Tiles.append_iff.mp rep.tiles
    have place : block.addr = prior.stop := tail.1
    apply iff_of_true
    · apply StaysInside.of_run
      rw [start]
      exact rep.free_run live
    · rw [start]
      simp only [Block.stop, Block.payload, structSize] at bounds place ⊢
      omega

/-- The second of two blocks is freed inside the heap. -/
theorem free_inside_sample :
    StaysInside twoServed 4176 ↔ 4176 ≠ twoServed.start + structSize :=
  free_inside_iff emptyProcess_fresh sample_serves (by decide)

/-- Freeing the first block reads the eight bytes in front of the heap. -/
theorem first_block_reads_below : Run Step ⟨emptyProcess, []⟩ (sampleTrace.take 2)
      ⟨twoServed, [(4176, 8), (4128, 8)]⟩ ∧ 4128 ∈ held [(4176, 8), (4128, 8)] ∧
    ((within twoServed.start twoServed.brk sbrk).free 4128).run twoServed = .error (.fault 4088) ∧
    ¬ StaysInside twoServed 4128 := by
  have base : twoServed.base = 4096 := by decide +kernel
  have start : twoServed.start = 4096 := by decide +kernel
  have known : 4128 ∈ held [(4176, 8), (4128, 8)] := by decide
  obtain ⟨blocks, list, consistent⟩ := consistent_of_run emptyProcess_fresh sample_serves
  obtain ⟨block, member, _, payload⟩ := consistent.owns.block_of_held known
  have place : block.addr = twoServed.base := by
    simp only [Block.payload] at payload
    omega
  obtain ⟨back, rfl⟩ := consistent.rep.first_block member place
  have faults := @Represents.free_first twoServed back list block sbrk consistent.rep
  rw [payload, base, ← start] at faults
  refine ⟨sample_serves, known, faults.trans (by rw [start]), fun stays => ?_⟩
  rw [stays.inside] at faults
  cases faults

end SystemProgramming.Malloc
