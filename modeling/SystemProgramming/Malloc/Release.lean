import SystemProgramming.Malloc.Arena

/-! `free` on a represented heap: the header of the freed block, and the four ways it is joined. -/

namespace SystemProgramming.Malloc

open Foundations

variable {h g : Heap} {blocks front back : List Block} {list earlier later : List Nat}
  {block prior next : Block} {node cur previous following : Nat}

/-- What `free` writes first: the flag, and the physical neighbours in the link fields. -/
def unlinked (h : Heap) (cur previous following : Nat) : Heap :=
  ((h.set .free cur 1).set .before cur previous).set .after cur following

/-- The freed block before it is joined: its own header is rewritten, and nothing else. -/
structure Unlinked (h g : Heap) (list : List Nat) (block : Block) (previous following : Nat) :
    Prop where
  process : SameProcess h g
  links : FreeLinks g list
  size : g.get .size block.addr = block.size
  flag : g.get .free block.addr = 1
  before : g.get .before block.addr = previous
  after : g.get .after block.addr = following
  kept : ∀ touched, Untouched touched block.addr (block.addr + 32) h g

/-- The header of a live block is no node of the free list. -/
theorem Represents.live_outside (rep : Represents h blocks list) (member : block ∈ blocks)
    (live : block.free = false) : block.addr ∉ list := by
  intro inList
  obtain ⟨owner, inside, place, free⟩ := rep.block_of_node inList
  have same := rep.tiles.eq_of_low_eq inside member place
  rw [same, live] at free
  cases free

/-- The nodes of the free list lie apart from every block header. -/
theorem Represents.header_apart (rep : Represents h blocks list) (member : block ∈ blocks) :
    ∀ other ∈ list, Apart other block.addr := by
  intro other inList
  have outside := rep.node_outside inList member
  simp only [Block.stop] at outside
  unfold Apart
  omega

/-- Rewriting the header of a live block leaves the free list and all other headers alone. -/
theorem unlinked_spec (rep : Represents h blocks list) (member : block ∈ blocks)
    (live : block.free = false) (previousFits : previous < 2 ^ 64)
    (followingFits : following < 2 ^ 64) :
    Unlinked h (unlinked h block.addr previous following) list block previous following := by
  have apart := rep.header_apart member
  have absent := rep.live_outside member live
  unfold unlinked
  refine ⟨⟨rfl, rfl, rfl, rfl⟩, ?_, ?_, ?_, ?_, ?_, fun touched => ?_⟩
  · exact ((rep.links.set apart (.inr (.inl rfl))).set apart (.inr (.inr absent))).set apart
      (.inr (.inr absent))
  · rw [Heap.get_set_other (.inl rfl) (.inl (by decide)),
      Heap.get_set_other (.inl rfl) (.inl (by decide)),
      Heap.get_set_other (.inl rfl) (.inl (by decide))]
    exact (rep.stored block member).size
  · rw [Heap.get_set_other (.inl rfl) (.inl (by decide)),
      Heap.get_set_other (.inl rfl) (.inl (by decide)), Heap.get_set_same]
    rfl
  · -- Later writes go to other fields of the header.
    rw [Heap.get_set_other (.inl rfl) (.inl (by decide)), Heap.get_set_same]
    exact Nat.mod_eq_of_lt previousFits
  · rw [Heap.get_set_same]
    exact Nat.mod_eq_of_lt followingFits
  · exact ((untouched_set (by omega) (by omega)).trans (untouched_set (by omega) (by omega))).trans
      (untouched_set (by omega) (by omega))

/-- Another block of the heap is still stored when the freed header has been rewritten. -/
theorem Unlinked.stored (unlinked : Unlinked h g list block previous following)
    (rep : Represents h blocks list) (second : prior ∈ blocks)
    (different : prior.stop ≤ block.addr ∨ block.stop ≤ prior.addr) : Stored g prior := by
  refine (rep.stored prior second).frame (unlinked.kept []) ?_ (by simp)
  simp only [Block.stop] at *
  omega

/-- Neither neighbour is joined: the block becomes the first node of the free list. -/
theorem alone_represents (rep : Represents h (front ++ block :: back) list)
    (live : block.free = false) (unlinked : Unlinked h g list block previous following) :
    SameProcess h ((linkAtHead g block.addr).set .free block.addr 1) ∧
      Represents ((linkAtHead g block.addr).set .free block.addr 1)
        (front ++ { block with free := true } :: back) (block.addr :: list) ∧
      Untouched list block.addr block.stop h
        ((linkAtHead g block.addr).set .free block.addr 1) := by
  have member : block ∈ front ++ block :: back := by simp
  have apart := rep.header_apart member
  have absent := rep.live_outside member live
  have bounds := rep.bounds member
  have low := rep.low
  have high := rep.high
  have limit := rep.limit
  have nodes := rep.nodes
  simp only [Block.stop] at bounds
  have newNodes : Nodes (block.addr :: list) :=
    nodes.cons (by omega) (by omega) absent fun other inList => (apart other inList).symm
  obtain ⟨process, links, kept⟩ := linkAtHead_spec newNodes unlinked.links
  -- Written are the header of the block and one link of the old first node.
  have same : Untouched list block.addr block.stop h
      ((linkAtHead g block.addr).set .free block.addr 1) := by
    refine (((unlinked.kept list).mono (fun _ inList => .inl inList) (.inl (by omega))
      (.inl (by simp only [Block.stop]; omega))).trans ?_).trans
      (untouched_set (by omega) (by simp only [Block.stop]; omega))
    -- The new node is the only one of the written links that was not in the list before.
    refine (kept block.addr block.stop).mono (fun node inList => ?_) (.inl (by omega))
      (.inl (by omega))
    rcases List.mem_cons.mp inList with rfl | old
    · exact .inr ⟨by omega, by simp only [Block.stop]; omega⟩
    · exact .inl old
  refine ⟨(unlinked.process.trans process).trans sameProcess_set, ?_, same⟩
  have headers : ∀ link ∈ block.addr :: list, Apart block.addr link := fun link inList =>
    newNodes.apart _ (by simp) _ inList
  have tagAway : ∀ link ∈ block.addr :: list,
      block.addr + 32 + block.size + 8 ≤ link ∨ link + 32 ≤ block.addr + 32 + block.size :=
    fun link inList => by
    rcases List.mem_cons.mp inList with rfl | old
    · omega
    · have outside := rep.node_outside old member
      simp only [Block.stop] at outside
      have : link ≠ block.addr := fun same => absent (same ▸ old)
      omega
  -- The block keeps its size and its tag, and its flag says that it is free.
  have stored : Stored ((linkAtHead g block.addr).set .free block.addr 1)
      ⟨block.addr, block.size, true⟩ := by
    refine .of_fields ?_ ?_ ?_
    · rw [Heap.get_set_other (.inl rfl) (.inl (by decide)),
        (kept 0 0).get (.inr (Nat.zero_le _)) (.inl rfl) headers, unlinked.size]
    · rw [Heap.get_set_same]
      rfl
    · rw [Heap.tag_set (by omega), (kept 0 0).tag (.inr (Nat.zero_le _)) tagAway,
        (unlinked.kept []).tag (by omega) (by simp)]
      exact (rep.stored block member).tag
  refine rep.exchange [block] [{ block with free := true }]
    ((unlinked.process.trans process).trans sameProcess_set) (by simp) (tiles_single block)
    (tiles_single { block with free := true }) same (by simpa using stored)
    (links.set (fun other inList => (headers other inList).symm) (.inr (.inl rfl)))
    newNodes.distinct fun node => ?_
  simp only [List.mem_cons, List.not_mem_nil, or_false, exists_eq_left, forall_eq, and_true]
  grind

/-- Joining with the block in front, with all reads resolved. -/
theorem mergeWithBefore_eq {low size : Nat} (before : g.get .before cur = previous)
    (priorSize : g.get .size previous = low) (sizeIs : g.get .size cur = size)
    (place : previous + 40 + low = cur) (bound : cur + 40 + size ≤ 2 ^ 63) :
    mergeWithBefore g cur =
      ((g.set .size previous (low + size + 40)).setTag (cur + 32 + size) (low + size + 40)).set
        .free cur 0 := by
  have away : Apart cur previous := .inr (.inr (by omega))
  have differ : previous ≠ cur := by omega
  -- The size of the other block was written, so the links and the own size still read the same.
  have readBefore : ∀ value, (g.set .size previous value).get .before cur = previous := fun value =>
    by rw [Heap.get_set_other away (.inl (by decide)), before]
  have readSize : ∀ value, (g.set .size previous value).get .size cur = size := fun value => by
    rw [Heap.get_set_other away (.inr differ), sizeIs]
  have sum : low + (size + structSize + dataSizeSize) = low + size + 40 := by
    simp only [structSize, dataSizeSize]
    omega
  have readSum : (g.set .size previous (low + size + 40)).get .size previous = low + size + 40 := by
    rw [Heap.get_set_same]
    exact Nat.mod_eq_of_lt (by simp only [Field.width]; omega)
  have tagPlace : wrap (cur + structSize + size) = cur + 32 + size :=
    wrap_of_lt (by simp only [structSize]; omega)
  simp only [mergeWithBefore, Heap.before, Heap.size, before, priorSize, sizeIs, sum, readBefore,
    readSize, readSum, tagPlace]

/-- The block in front with the size and the tag of the stretch, before the list is edited. -/
theorem swallowing_stored {stop total : Nat} (kept : ∀ touched, Untouched touched cur stop h g)
    (flag : h.get .free previous = 1) (apart : previous + 40 ≤ cur)
    (whole : previous + 40 + total = stop) (fits : total < 2 ^ 64) :
    Stored ((g.set .size previous total).setTag (previous + 32 + total) total)
        ⟨previous, total, true⟩ ∧
      ∀ touched, Untouched touched previous stop h
        ((g.set .size previous total).setTag (previous + 32 + total) total) := by
  refine ⟨.of_fields ?_ ?_ (Heap.tag_setTag_same fits), fun touched => ?_⟩
  · rw [Heap.get_setTag (by omega), Heap.get_set_same]
    exact Nat.mod_eq_of_lt fits
  · -- The flag of the block in front was set before, and no write reaches it.
    rw [Heap.get_setTag (by omega), Heap.get_set_other (.inl rfl) (.inl (by decide)),
      (kept []).get_all (.inl (by omega)), flag]
    rfl
  · exact (((kept touched).mono (fun _ inList => .inl inList) (.inl (by omega))
      (.inl (by omega))).trans (untouched_set (by omega) (by omega))).trans
      (untouched_setTag (by omega) (by omega))

/-- The block in front is joined: it grows over the freed block and keeps its place in the list. -/
theorem withBefore_represents (rep : Represents h (front ++ prior :: block :: back) list)
    (free : prior.free = true) (live : block.free = false)
    (unlinked : Unlinked h g list block prior.addr following) :
    SameProcess h ((mergeWithBefore g block.addr).set .free block.addr 1) ∧
      Represents ((mergeWithBefore g block.addr).set .free block.addr 1)
        (front ++ ⟨prior.addr, prior.size + block.size + 40, true⟩ :: back) list ∧
      Untouched list prior.addr block.stop h
        ((mergeWithBefore g block.addr).set .free block.addr 1) := by
  have member : block ∈ front ++ prior :: block :: back := by simp
  have second : prior ∈ front ++ prior :: block :: back := by simp
  obtain ⟨middle, _, starts, _, tail⟩ := Tiles.append_iff.mp rep.tiles
  have place : block.addr = prior.stop := tail.1
  simp only [Block.stop] at place
  have bounds := rep.bounds member
  have high := rep.high
  have limit := rep.limit
  simp only [Block.stop] at bounds
  have priorStored := unlinked.stored rep second (.inl (by simp only [Block.stop]; omega))
  rw [mergeWithBefore_eq unlinked.before priorStored.size unlinked.size place.symm (by omega)]
  -- The joined block ends where the freed one did, so their tags lie at one place.
  have tagIs : block.addr + 32 + block.size = prior.addr + 32 + (prior.size + block.size + 40) := by
    omega
  rw [tagIs]
  have whole : prior.addr + 40 + (prior.size + block.size + 40) = block.stop := by
    simp only [Block.stop]
    omega
  have inside : block.addr + 40 ≤ block.stop := by
    simp only [Block.stop]
    omega
  have bound : block.stop ≤ 2 ^ 63 := by
    simp only [Block.stop]
    omega
  -- From here on the joined size is just a number.
  generalize prior.size + block.size + 40 = total at whole tagIs ⊢
  have priorFlag : h.get .free prior.addr = 1 := by
    rw [(rep.stored prior second).flag, free]
    rfl
  have keptHeader : ∀ touched, Untouched touched block.addr block.stop h g := fun touched =>
    (unlinked.kept touched).mono (fun _ inList => .inl inList) (.inl (by omega)) (.inl (by omega))
  obtain ⟨grown, keptGrown⟩ := swallowing_stored keptHeader priorFlag (by omega) whole (by omega)
  -- The flag that is still written lies in a header that is part of the payload now.
  have flags : ∀ low, low ≤ block.addr → ∀ high, block.addr + 32 ≤ high → ∀ touched,
      Untouched touched low high ((g.set .size prior.addr total).setTag (prior.addr + 32 + total) total)
        ((((g.set .size prior.addr total).setTag (prior.addr + 32 + total) total).set .free
          block.addr 0).set .free block.addr 1) := fun low below high above touched =>
    (untouched_set below (by omega)).trans (untouched_set below above)
  have stored := grown.inside (flags block.addr (Nat.le_refl _) (block.addr + 32) (Nat.le_refl _) [])
    (show prior.addr + 32 ≤ block.addr by omega)
    (show block.addr + 32 ≤ prior.addr + 32 + total by omega)
  have same := (keptGrown list).trans (flags prior.addr (by omega) block.stop (by omega) list)
  refine ⟨unlinked.process.trans ⟨rfl, rfl, rfl, rfl⟩, ?_, same⟩
  have apart := rep.header_apart member
  have priorApart := rep.header_apart second
  -- The tag of the freed block lies inside it, and no node does.
  have tagAway : ∀ link ∈ list,
      prior.addr + 32 + total + 8 ≤ link ∨ link + 32 ≤ prior.addr + 32 + total :=
    fun link inList => by
    have outside := rep.node_outside inList member
    have absent := rep.live_outside member live
    have differ : link ≠ block.addr := fun same => absent (same ▸ inList)
    simp only [Block.stop] at outside
    omega
  have links : FreeLinks ((((g.set .size prior.addr total).setTag (prior.addr + 32 + total) total).set
      .free block.addr 0).set .free block.addr 1) list :=
    (((unlinked.links.set priorApart (.inl rfl)).setTag tagAway).set apart (.inr (.inl rfl))).set
      apart (.inr (.inl rfl))
  have was : Tiles Block.addr Block.stop prior.addr [prior, block] block.stop := by
    simp only [Tiles, Block.stop, and_true, true_and]
    omega
  have becomes : Tiles Block.addr Block.stop prior.addr [⟨prior.addr, total, true⟩] block.stop := by
    simp only [Tiles, Block.stop, true_and] at whole ⊢
    omega
  refine @Represents.exchange _ _ front back _ list _ _ [prior, block] [⟨prior.addr, total, true⟩] rep
    (unlinked.process.trans ⟨rfl, rfl, rfl, rfl⟩) (by simp) was becomes same
    (by simpa using stored) links rep.distinct fun node => ?_
  -- The list is the same: the grown block still stands for the node of the block in front.
  have absent := rep.live_outside member live
  have present : prior.addr ∈ list := (rep.exactly _).mpr ⟨prior, second, rfl, free⟩
  simp only [List.mem_cons, List.not_mem_nil, or_false, exists_eq_left, forall_eq_or_imp, forall_eq,
    and_true]
  grind

/-- The freed block with the size, the tag and the links of the stretch that it takes over. -/
def absorbing (g : Heap) (cur next total : Nat) : Heap :=
  (((g.set .size cur total).setTag (cur + 32 + total) total).set .before cur (g.get .before next)).set
    .after cur (g.get .after next)

/-- Joining with the block behind, with all reads resolved. -/
theorem mergeWithAfter_eq {size rest : Nat} (after : g.get .after cur = node)
    (sizeIs : g.get .size cur = size) (restSize : g.get .size node = rest)
    (place : cur + 40 + size = node) (bound : node + 40 + rest ≤ 2 ^ 63) :
    mergeWithAfter g cur =
      (relistSplit (absorbing g cur node (size + rest + 40)) node cur).set .free node 0 := by
  have away : Apart node cur := .inr (.inr (by omega))
  have differ : cur ≠ node := by omega
  have readAfter : ∀ value, (g.set .size cur value).get .after cur = node := fun value => by
    rw [Heap.get_set_other (.inl rfl) (.inl (by decide)), after]
  have readRest : ∀ value, (g.set .size cur value).get .size node = rest := fun value => by
    rw [Heap.get_set_other away (.inr differ), restSize]
  have sum : size + (rest + structSize + dataSizeSize) = size + rest + 40 := by
    simp only [structSize, dataSizeSize]
    omega
  have readSum : (g.set .size cur (size + rest + 40)).get .size cur = size + rest + 40 := by
    rw [Heap.get_set_same]
    exact Nat.mod_eq_of_lt (by simp only [Field.width]; omega)
  have tagPlace : wrap (node + structSize + rest) = cur + 32 + (size + rest + 40) := by
    rw [wrap_of_lt (by simp only [structSize]; omega)]
    simp only [structSize]
    omega
  -- After the size and the tag, the links of the two blocks are still the old ones.
  have keepAfter : ∀ a b, ((g.set .size cur a).setTag (cur + 32 + (size + rest + 40)) b).get .after
      cur = node := fun a b => by rw [Heap.get_setTag (by omega), readAfter]
  have nodeBefore : ∀ a b, ((g.set .size cur a).setTag (cur + 32 + (size + rest + 40)) b).get .before
      node = g.get .before node := fun a b => by
    rw [Heap.get_setTag (by omega), Heap.get_set_other away (.inr differ)]
  have nodeAfter : ∀ a b c, (((g.set .size cur a).setTag (cur + 32 + (size + rest + 40)) b).set
      .before cur c).get .after node = g.get .after node := fun a b c => by
    rw [Heap.get_set_other away (.inr differ), Heap.get_setTag (by omega),
      Heap.get_set_other away (.inr differ)]
  simp only [mergeWithAfter, Heap.before, Heap.after, Heap.size, after, sizeIs, restSize, sum,
    readAfter, readRest, readSum, tagPlace, keepAfter, nodeBefore, nodeAfter, absorbing]

/-- Where the block behind a live block is free, the other nodes of the list lie outside both. -/
theorem Represents.pair_outside (rep : Represents h (front ++ block :: next :: back)
      (earlier ++ next.addr :: later)) (live : block.free = false) :
    ∀ other ∈ earlier ++ later, other + 40 ≤ block.addr ∨ next.stop ≤ other := by
  intro other inList
  have member : block ∈ front ++ block :: next :: back := by simp
  have second : next ∈ front ++ block :: next :: back := by simp
  obtain ⟨middle, _, _, _, tail⟩ := Tiles.append_iff.mp rep.tiles
  have place : next.addr = block.stop := tail.1
  have whole : other ∈ earlier ++ next.addr :: later := by grind
  have first := rep.node_outside whole member
  have last := rep.node_outside whole second
  have notBlock : other ≠ block.addr := fun same => rep.live_outside member live (same ▸ whole)
  have notNext : other ≠ next.addr := by
    have distinct := rep.distinct
    grind
  simp only [Block.stop] at first last place ⊢
  omega

/-- What is known before the freed block takes the place of the block behind it in the list. -/
structure AbsorbReady (h g : Heap) (cur node stop total : Nat) (list : List Nat) : Prop where
  process : SameProcess h g
  links : FreeLinks g list
  before : g.get .before cur = g.get .before node
  after : g.get .after cur = g.get .after node
  size : g.get .size cur = total
  tag : g.tag (cur + 32 + total) = total
  kept : ∀ touched, Untouched touched cur stop h g

/-- Preparing the join with the block behind, where no other node of the list lies in between. -/
theorem absorbing_ready {stop total : Nat}
    (unlinked : Unlinked h g (earlier ++ node :: later) block previous following)
    (others : ∀ other ∈ earlier ++ later, other + 40 ≤ block.addr ∨ stop ≤ other)
    (absent : block.addr ∉ earlier ++ node :: later) (behind : block.addr + 40 ≤ node)
    (inside : node + 40 ≤ stop) (whole : block.addr + 40 + total = stop) (fits : total < 2 ^ 64) :
    AbsorbReady h (absorbing g block.addr node total) block.addr node stop total
      (earlier ++ node :: later) := by
  -- The only node inside the stretch is the block behind.
  have places : ∀ other ∈ earlier ++ node :: later,
      other = node ∨ other + 40 ≤ block.addr ∨ stop ≤ other := fun other inList => by
    have place : other = node ∨ other ∈ earlier ++ later := by grind
    exact place.imp_right (others other)
  have listApart : ∀ other ∈ earlier ++ node :: later, Apart other block.addr :=
    fun other inList => by
    have := places other inList
    unfold Apart
    omega
  have tagAway : ∀ link ∈ earlier ++ node :: later,
      block.addr + 32 + total + 8 ≤ link ∨ link + 32 ≤ block.addr + 32 + total :=
    fun link inList => by
    have := places link inList
    omega
  have away : Apart node block.addr := .inr (.inr (by omega))
  have differ : block.addr ≠ node := by omega
  refine ⟨unlinked.process.trans ⟨rfl, rfl, rfl, rfl⟩, ?_, ?_, ?_, ?_, ?_, fun touched => ?_⟩
  · exact (((unlinked.links.set listApart (.inl rfl)).setTag tagAway).set listApart
      (.inr (.inr absent))).set listApart (.inr (.inr absent))
  · unfold absorbing
    rw [Heap.get_set_other (.inl rfl) (.inl (by decide)), Heap.get_set_same,
      Heap.get_set_other away (.inl (by decide)), Heap.get_set_other away (.inr differ),
      Heap.get_setTag (by omega), Heap.get_set_other away (.inl (by decide))]
    exact Nat.mod_eq_of_lt (g.get_lt _ _)
  · unfold absorbing
    rw [Heap.get_set_same, Heap.get_set_other away (.inr differ),
      Heap.get_set_other away (.inl (by decide)), Heap.get_setTag (by omega),
      Heap.get_set_other away (.inl (by decide))]
    exact Nat.mod_eq_of_lt (g.get_lt _ _)
  · unfold absorbing
    rw [Heap.get_set_other (.inl rfl) (.inl (by decide)),
      Heap.get_set_other (.inl rfl) (.inl (by decide)), Heap.get_setTag (by omega),
      Heap.get_set_same]
    exact Nat.mod_eq_of_lt fits
  · unfold absorbing
    rw [Heap.tag_set (by omega), Heap.tag_set (by omega), Heap.tag_setTag_same fits]
  · exact (((((unlinked.kept touched).mono (fun _ inList => .inl inList) (.inl (by omega))
      (.inl (by omega))).trans (untouched_set (by omega) (by omega))).trans
      (untouched_setTag (by omega) (by omega))).trans (untouched_set (by omega) (by omega))).trans
      (untouched_set (by omega) (by omega))

/-- Finishing the join: the freed block stands in the list for the block behind it. -/
theorem AbsorbReady.finish {stop total : Nat}
    (ready : AbsorbReady h g cur node stop total (earlier ++ node :: later))
    (nodes : Nodes (earlier ++ node :: later))
    (others : ∀ other ∈ earlier ++ later, other + 40 ≤ cur ∨ stop ≤ other)
    (low : 32 ≤ cur) (behind : cur + 40 ≤ node) (inside : node + 40 ≤ stop)
    (whole : cur + 40 + total = stop) (bound : stop ≤ 2 ^ 63) (g' : Heap)
    (done : g' = ((relistSplit g node cur).set .free node 0).set .free cur 1) :
    SameProcess h g' ∧ FreeLinks g' (earlier ++ cur :: later) ∧ Stored g' ⟨cur, total, true⟩ ∧
      Untouched (earlier ++ node :: later) cur stop h g' := by
  subst done
  have apart : ∀ other ∈ earlier ++ later, Apart cur other := fun other inList => by
    have := others other inList
    unfold Apart
    omega
  have absent : cur ∉ earlier ++ later := fun inList => by
    have := others _ inList
    omega
  -- The freed block has the links of the block behind, so it can take its place.
  obtain ⟨process, links, relinked⟩ := relistSplit_spec nodes ready.links low (by omega) apart absent
    ready.before ready.after
  have newApart : ∀ target, target = cur ∨ target = node →
      ∀ other ∈ earlier ++ cur :: later, Apart other target := fun target which other inList => by
    have place : other = cur ∨ other ∈ earlier ++ later := by grind
    unfold Apart
    rcases place with rfl | inRest
    · omega
    · have := others other inRest
      omega
  have away : Apart cur node := .inr (.inl (by omega))
  refine ⟨((ready.process.trans process).trans sameProcess_set).trans sameProcess_set,
    (links.set (newApart node (.inr rfl)) (.inr (.inl rfl))).set (newApart cur (.inl rfl))
      (.inr (.inl rfl)), .of_fields ?_ ?_ ?_, ?_⟩
  · rw [Heap.get_set_other (.inl rfl) (.inl (by decide)), Heap.get_set_other away (.inl (by decide)),
      (relinked 0 0).get (.inr (Nat.zero_le _)) (.inl rfl) apart, ready.size]
  · rw [Heap.get_set_same]
    rfl
  · rw [Heap.tag_set (by omega), Heap.tag_set (by omega), (relinked 0 0).tag (.inr (Nat.zero_le _))
      (fun link inList => by have := others link inList; omega), ready.tag]
  · exact (((ready.kept _).trans ((relinked cur stop).mono (fun _ inList => .inl (by grind))
      (.inl (by omega)) (.inl (by omega)))).trans (untouched_set (by omega) (by omega))).trans
      (untouched_set (by omega) (by omega))

/-- The block behind is joined: the freed block takes its place in the list. -/
theorem withAfter_represents (rep : Represents h (front ++ block :: next :: back)
      (earlier ++ next.addr :: later)) (live : block.free = false)
    (unlinked : Unlinked h g (earlier ++ next.addr :: later) block previous next.addr) :
    SameProcess h ((mergeWithAfter g block.addr).set .free block.addr 1) ∧
      Represents ((mergeWithAfter g block.addr).set .free block.addr 1)
        (front ++ ⟨block.addr, block.size + next.size + 40, true⟩ :: back)
        (earlier ++ block.addr :: later) ∧
      Untouched (earlier ++ next.addr :: later) block.addr next.stop h
        ((mergeWithAfter g block.addr).set .free block.addr 1) := by
  have member : block ∈ front ++ block :: next :: back := by simp
  have second : next ∈ front ++ block :: next :: back := by simp
  obtain ⟨middle, _, _, _, tail⟩ := Tiles.append_iff.mp rep.tiles
  have place : next.addr = block.stop := tail.1
  have bounds := rep.bounds second
  have inside := rep.bounds member
  have low := rep.low
  have high := rep.high
  have limit := rep.limit
  have others := rep.pair_outside live
  have absent := rep.live_outside member live
  simp only [Block.stop] at bounds inside place
  have nextStored := unlinked.stored rep second (.inr (by simp only [Block.stop]; omega))
  rw [mergeWithAfter_eq unlinked.after unlinked.size nextStored.size place.symm (by omega)]
  have whole : block.addr + 40 + (block.size + next.size + 40) = next.stop := by
    simp only [Block.stop]
    omega
  -- From here on the joined size is just a number.
  generalize block.size + next.size + 40 = total at whole ⊢
  have span : next.addr + 40 ≤ next.stop := by simp only [Block.stop]; omega
  have ready := absorbing_ready unlinked others absent (by omega) span whole
    (by simp only [Block.stop] at whole; omega)
  obtain ⟨process, links, stored, same⟩ := ready.finish rep.nodes others (by omega) (by omega)
    span whole (by simp only [Block.stop]; omega) _ rfl
  refine ⟨process, ?_, same⟩
  have was : Tiles Block.addr Block.stop block.addr [block, next] next.stop := by
    simp only [Tiles, Block.stop, and_true, true_and]
    omega
  -- The two blocks and the joined one tile the same range.
  have becomes : Tiles Block.addr Block.stop block.addr [⟨block.addr, total, true⟩] next.stop := by
    simp only [Tiles, Block.stop, true_and] at whole ⊢
    omega
  have distinct := rep.distinct
  refine @Represents.exchange _ _ front back _ _ _ _ [block, next] [⟨block.addr, total, true⟩] rep
    process (by simp) was becomes same (by simpa using stored) links ?_ fun node => ?_
  · grind
  · simp only [List.mem_cons, List.not_mem_nil, or_false, exists_eq_left, forall_eq_or_imp, forall_eq,
      and_true]
    grind

/-- Joining with both neighbours, with all reads resolved. -/
theorem mergeBoth_eq {low size rest : Nat} (before : g.get .before cur = previous)
    (after : g.get .after cur = node) (priorSize : g.get .size previous = low)
    (sizeIs : g.get .size cur = size) (restSize : g.get .size node = rest)
    (place : previous + 40 + low = cur) (second : cur + 40 + size = node)
    (bound : node + 40 + rest ≤ 2 ^ 63) :
    mergeBoth g cur =
      ((deleteDataNode ((g.set .size previous (low + size + rest + 80)).setTag (node + 32 + rest)
        (low + size + rest + 80)) node).set .free cur 0).set .free node 0 := by
  have away : Apart cur previous := .inr (.inr (by omega))
  have nodeAway : Apart node previous := .inr (.inr (by omega))
  have readBefore : ∀ value, (g.set .size previous value).get .before cur = previous := fun value =>
    by rw [Heap.get_set_other away (.inl (by decide)), before]
  have readAfter : ∀ value, (g.set .size previous value).get .after cur = node := fun value => by
    rw [Heap.get_set_other away (.inl (by decide)), after]
  have readRest : ∀ value, (g.set .size previous value).get .size node = rest := fun value => by
    rw [Heap.get_set_other nodeAway (.inr (by omega)), restSize]
  -- Two headers and two tags become part of the joined payload.
  have sum : low + (size + rest + 2 * structSize + 2 * dataSizeSize) = low + size + rest + 80 := by
    simp only [structSize, dataSizeSize]
    omega
  have readSum : (g.set .size previous (low + size + rest + 80)).get .size previous =
      low + size + rest + 80 := by
    rw [Heap.get_set_same]
    exact Nat.mod_eq_of_lt (by simp only [Field.width]; omega)
  have tagPlace : wrap (node + structSize + rest) = node + 32 + rest :=
    wrap_of_lt (by simp only [structSize]; omega)
  have keepAfter : ∀ a b, ((g.set .size previous a).setTag (node + 32 + rest) b).get .after cur =
      node := fun a b => by rw [Heap.get_setTag (by omega), readAfter]
  simp only [mergeBoth, Heap.before, Heap.after, Heap.size, before, after, priorSize, sizeIs,
    restSize, sum, readBefore, readAfter, readRest, readSum, tagPlace, keepAfter]

/-- The flags that `free` still writes in the headers that a join has swallowed. -/
def stale (g : Heap) (cur node : Nat) : Heap :=
  ((g.set .free cur 0).set .free node 0).set .free cur 1

/-- The flags of swallowed headers change neither the stretch's own block nor the free list. -/
theorem stale_spec {stop total : Nat} (merged : Stored g ⟨previous, total, true⟩)
    (links : FreeLinks g list) (others : ∀ other ∈ list, other + 32 ≤ cur ∨ stop ≤ other)
    (apart : previous + 40 ≤ cur) (behind : cur + 40 ≤ node) (inside : node + 40 ≤ stop)
    (whole : previous + 40 + total = stop) :
    Stored (stale g cur node) ⟨previous, total, true⟩ ∧ FreeLinks (stale g cur node) list ∧
      SameProcess g (stale g cur node) ∧
      ∀ touched, Untouched touched previous stop g (stale g cur node) := by
  have listApart : ∀ target, target = cur ∨ target = node → ∀ other ∈ list, Apart other target :=
    fun target which other inList => by
    have := others other inList
    unfold Apart
    omega
  -- The flags lie in headers that are now part of the payload.
  have kept : ∀ low, low ≤ cur → ∀ high, node + 32 ≤ high → ∀ touched,
      Untouched touched low high g (stale g cur node) := fun low below high above touched =>
    ((untouched_set below (by omega)).trans (untouched_set (by omega) above)).trans
      (untouched_set below (by omega))
  refine ⟨?_, ?_, ⟨rfl, rfl, rfl, rfl⟩, kept previous (by omega) stop (by omega)⟩
  · have header := kept cur (by omega) (node + 32) (by omega) []
    exact merged.inside header (show previous + 32 ≤ cur by omega)
      (show node + 32 ≤ previous + 32 + total by omega)
  · exact ((links.set (listApart cur (.inl rfl)) (.inr (.inl rfl))).set (listApart node (.inr rfl))
      (.inr (.inl rfl))).set (listApart cur (.inl rfl)) (.inr (.inl rfl))

/-- Finishing the join with both neighbours: the block behind leaves the list. -/
theorem swallowing_finish {stop total : Nat} (process : SameProcess h g)
    (links : FreeLinks g (earlier ++ node :: later)) (nodes : Nodes (earlier ++ node :: later))
    (kept : ∀ touched, Untouched touched cur stop h g) (flag : h.get .free previous = 1)
    (header : ∀ link ∈ earlier ++ node :: later, Apart link previous)
    (others : ∀ other ∈ earlier ++ later, other = previous ∨ other + 40 ≤ previous ∨ stop ≤ other)
    (apart : previous + 40 ≤ cur) (behind : cur + 40 ≤ node) (inside : node + 40 ≤ stop)
    (whole : previous + 40 + total = stop) (bound : stop ≤ 2 ^ 63) (g' : Heap)
    (done : g' = stale (deleteDataNode ((g.set .size previous total).setTag (previous + 32 + total)
      total) node) cur node) :
    SameProcess h g' ∧ FreeLinks g' (earlier ++ later) ∧ Stored g' ⟨previous, total, true⟩ ∧
      Untouched (earlier ++ node :: later) previous stop h g' := by
  subst done
  -- First the block in front grows, then the block behind leaves the list.
  obtain ⟨grown, keptGrown⟩ := swallowing_stored kept flag apart whole (by omega)
  have tagAway : ∀ link ∈ earlier ++ node :: later,
      previous + 32 + total + 8 ≤ link ∨ link + 32 ≤ previous + 32 + total :=
    fun link inList => by
    have place : link = node ∨ link ∈ earlier ++ later := by grind
    rcases place with rfl | inRest
    · omega
    · have := others link inRest
      omega
  have grownLinks : FreeLinks ((g.set .size previous total).setTag (previous + 32 + total) total)
      (earlier ++ node :: later) :=
    (links.set header (.inl rfl)).setTag tagAway
  obtain ⟨removed, rest, keptRemoved⟩ := deleteDataNode_spec nodes grownLinks
  have merged := grown.frame (keptRemoved 0 0) (.inr (Nat.zero_le _)) fun link inList => by
    have := others link inList
    show link = previous ∨ link + 32 ≤ previous ∨ previous + 40 + total ≤ link
    omega
  have outside : ∀ other ∈ earlier ++ later, other + 32 ≤ cur ∨ stop ≤ other :=
    fun other inList => by
    have := others other inList
    omega
  obtain ⟨stored, newLinks, staleProcess, keptStale⟩ :=
    stale_spec merged rest outside apart behind inside whole
  have grownProcess : SameProcess g
      ((g.set .size previous total).setTag (previous + 32 + total) total) :=
    ⟨rfl, rfl, rfl, rfl⟩
  refine ⟨((process.trans grownProcess).trans removed).trans staleProcess, newLinks, stored, ?_⟩
  exact ((keptGrown _).trans ((keptRemoved previous stop).mono (fun _ inList => .inl (by grind))
    (.inl (by omega)) (.inl (by omega)))).trans (keptStale _)

/-- Apart from the block in front, the list has no node in the stretch but the block behind. -/
theorem Represents.trio_outside (rep : Represents h (front ++ prior :: block :: next :: back)
      (earlier ++ next.addr :: later)) (live : block.free = false) :
    ∀ other ∈ earlier ++ later,
      other = prior.addr ∨ other + 40 ≤ prior.addr ∨ next.stop ≤ other := by
  intro other inList
  have priorIn : prior ∈ front ++ prior :: block :: next :: back := by simp
  have member : block ∈ front ++ prior :: block :: next :: back := by simp
  have second : next ∈ front ++ prior :: block :: next :: back := by simp
  obtain ⟨middle, _, _, _, starts, _, tail⟩ := Tiles.append_iff.mp rep.tiles
  have place : block.addr = prior.stop := starts
  have behind : next.addr = block.stop := tail.1
  have inWhole : other ∈ earlier ++ next.addr :: later := by grind
  have first := rep.node_outside inWhole priorIn
  have middle := rep.node_outside inWhole member
  have last := rep.node_outside inWhole second
  have notBlock : other ≠ block.addr := fun same => rep.live_outside member live (same ▸ inWhole)
  have notNext : other ≠ next.addr := by
    have distinct := rep.distinct
    grind
  simp only [Block.stop] at first middle last place behind ⊢
  omega

/-- Both neighbours are joined: the block behind leaves the list, the block in front grows. -/
theorem both_represents (rep : Represents h (front ++ prior :: block :: next :: back)
      (earlier ++ next.addr :: later)) (free : prior.free = true) (live : block.free = false)
    (unlinked : Unlinked h g (earlier ++ next.addr :: later) block prior.addr next.addr) :
    SameProcess h ((mergeBoth g block.addr).set .free block.addr 1) ∧
      Represents ((mergeBoth g block.addr).set .free block.addr 1)
        (front ++ ⟨prior.addr, prior.size + block.size + next.size + 80, true⟩ :: back)
        (earlier ++ later) ∧
      Untouched (earlier ++ next.addr :: later) prior.addr next.stop h
        ((mergeBoth g block.addr).set .free block.addr 1) := by
  have priorIn : prior ∈ front ++ prior :: block :: next :: back := by simp
  have member : block ∈ front ++ prior :: block :: next :: back := by simp
  have second : next ∈ front ++ prior :: block :: next :: back := by simp
  obtain ⟨middle, _, _, _, starts, _, tail⟩ := Tiles.append_iff.mp rep.tiles
  have place : block.addr = prior.stop := starts
  have behind : next.addr = block.stop := tail.1
  have bounds := rep.bounds second
  have high := rep.high
  have limit := rep.limit
  have others := rep.trio_outside live
  simp only [Block.stop] at place behind bounds
  have priorStored := unlinked.stored rep priorIn (.inl (by simp only [Block.stop]; omega))
  have nextStored := unlinked.stored rep second (.inr (by simp only [Block.stop]; omega))
  rw [mergeBoth_eq unlinked.before unlinked.after priorStored.size unlinked.size nextStored.size
    place.symm behind.symm (by omega)]
  have tagPlace : next.addr + 32 + next.size =
      prior.addr + 32 + (prior.size + block.size + next.size + 80) := by omega
  have whole : prior.addr + 40 + (prior.size + block.size + next.size + 80) = next.stop := by
    simp only [Block.stop]
    omega
  rw [tagPlace]
  -- From here on the joined size is just a number.
  generalize prior.size + block.size + next.size + 80 = total at whole ⊢
  have span : next.addr + 40 ≤ next.stop := by simp only [Block.stop]; omega
  have bound : next.stop ≤ 2 ^ 63 := by simp only [Block.stop]; omega
  have priorFlag : h.get .free prior.addr = 1 := by
    rw [(rep.stored prior priorIn).flag, free]
    rfl
  have keptHeader : ∀ touched, Untouched touched block.addr next.stop h g := fun touched =>
    (unlinked.kept touched).mono (fun _ inList => .inl inList) (.inl (by omega)) (.inl (by omega))
  obtain ⟨process, links, stored, same⟩ := swallowing_finish unlinked.process unlinked.links rep.nodes
    keptHeader priorFlag (rep.header_apart priorIn) others (by omega) (by omega) span whole bound
    (stale (deleteDataNode ((g.set .size prior.addr total).setTag (prior.addr + 32 + total) total)
      next.addr) block.addr next.addr) rfl
  refine ⟨process, ?_, same⟩
  have was : Tiles Block.addr Block.stop prior.addr [prior, block, next] next.stop := by
    simp only [Tiles, Block.stop, and_true, true_and]
    omega
  have becomes : Tiles Block.addr Block.stop prior.addr [⟨prior.addr, total, true⟩] next.stop := by
    simp only [Tiles, Block.stop, true_and] at whole ⊢
    omega
  -- The block in front is still in the list, and the block behind is gone from it.
  have absent := rep.live_outside member live
  have distinct := rep.distinct
  have present : prior.addr ∈ earlier ++ next.addr :: later :=
    (rep.exactly _).mpr ⟨prior, priorIn, rfl, free⟩
  refine @Represents.exchange _ _ front back _ _ _ _ [prior, block, next] [⟨prior.addr, total, true⟩]
    rep process (by simp) was becomes same ?_ links rep.nodes.remove.distinct fun node => ?_
  · intro only inNew
    rw [List.mem_singleton.mp inNew]
    exact stored
  · simp only [List.mem_cons, List.not_mem_nil, or_false, exists_eq_left, forall_eq_or_imp,
      forall_eq, and_true]
    grind

/-- The header address that `free` computes from the tag in front of a block. -/
def physicalBefore (front : List Block) (cur : Nat) : Nat :=
  match front.getLast? with
  | none => cur - 40
  | some prior => prior.addr

/-- A heap with a block has a start, and that is where its blocks begin. -/
theorem Represents.start_eq (rep : Represents h blocks list) (member : block ∈ blocks) :
    h.start = h.base := by
  have bounds := rep.bounds member
  unfold Heap.base at bounds ⊢
  by_cases fresh : h.start = null
  · -- Without a start the heap would be the empty range at the break.
    rw [if_pos fresh] at bounds
    simp only [Block.stop] at bounds
    omega
  · rw [if_neg fresh]

/-- The tag in front of a block leads to the header of the block before it, or below the start. -/
theorem physicalBefore_eq (rep : Represents h (front ++ block :: back) list) :
    wrapSub (wrapSub (wrapSub block.addr dataSizeSize) (h.tag (wrapSub block.addr dataSizeSize)))
      structSize = physicalBefore front block.addr ∧ physicalBefore front block.addr < 2 ^ 63 := by
  have member : block ∈ front ++ block :: back := by simp
  have bounds := rep.bounds member
  have low := rep.low
  have high := rep.high
  have limit := rep.limit
  simp only [Block.stop] at bounds
  have tagAddr : wrapSub block.addr dataSizeSize = block.addr - 8 :=
    wrapSub_of_le (by omega) (by simp only [dataSizeSize]; omega)
  rw [tagAddr]
  unfold physicalBefore
  cases front using List.reverseRecOn with
  | nil =>
    -- The first block lies at the start, and the word below it is zero.
    have first : block.addr = h.base := rep.tiles.1
    have zero : h.tag (block.addr - 8) = 0 := by rw [first]; exact rep.guard
    have inner : wrapSub (block.addr - 8) 0 = block.addr - 8 := wrapSub_of_le (by omega) (by omega)
    have outer : wrapSub (block.addr - 8) structSize = block.addr - 8 - structSize :=
      wrapSub_of_le (by omega) (by simp only [structSize]; omega)
    rw [zero, inner, outer]
    simp only [List.getLast?_nil, structSize]
    omega
  | append_singleton front prior =>
    have second : prior ∈ front ++ [prior] ++ block :: back := by simp
    have adjacent : prior.stop = block.addr := by
      have tiles := rep.tiles
      rw [List.append_assoc] at tiles
      obtain ⟨middle, _, _, _, starts, _⟩ := Tiles.append_iff.mp tiles
      exact starts.symm
    have stored := (rep.stored prior second).tag
    simp only [Block.stop] at adjacent
    have place : block.addr - 8 = prior.tagAddr := by simp only [Block.tagAddr]; omega
    have inner : wrapSub (block.addr - 8) prior.size = block.addr - 8 - prior.size :=
      wrapSub_of_le (by omega) (by omega)
    have outer : wrapSub (block.addr - 8 - prior.size) structSize =
        block.addr - 8 - prior.size - structSize :=
      wrapSub_of_le (by omega) (by simp only [structSize]; omega)
    rw [place, stored, ← place, inner, outer]
    simp only [List.getLast?_concat, structSize]
    omega

/-- The test for the block in front succeeds exactly when there is one and it is free. -/
theorem before_test (rep : Represents h (front ++ block :: back) list)
    (unlinked : Unlinked h g list block (physicalBefore front block.addr) following) :
    (physicalBefore front block.addr ≥ h.start ∧
        g.get .free (physicalBefore front block.addr) ≠ 0) ↔
      ∃ prior ∈ front.getLast?, prior.free = true := by
  have member : block ∈ front ++ block :: back := by simp
  have low := rep.low
  rw [rep.start_eq member]
  unfold physicalBefore
  cases front using List.reverseRecOn with
  | nil =>
    -- Without a block in front, the computed header lies below the start of the heap.
    have first : block.addr = h.base := rep.tiles.1
    simp only [List.getLast?_nil, first, Option.mem_def, reduceCtorEq, false_and, exists_false,
      iff_false, not_and]
    omega
  | append_singleton front prior =>
    have second : prior ∈ front ++ [prior] ++ block :: back := by simp
    have tiles := rep.tiles
    rw [List.append_assoc] at tiles
    obtain ⟨middle, _, _, _, starts, _⟩ := Tiles.append_iff.mp tiles
    -- Otherwise it is the header of that block, whose flag was not touched.
    have stored := unlinked.stored rep second (.inl (Nat.le_of_eq starts.symm))
    have above := (rep.bounds second).1
    simp only [List.getLast?_concat, Option.mem_def, Option.some.injEq, exists_eq_left', stored.flag]
    cases prior.free <;> simp [above]

/-- The test for the block behind succeeds exactly when it is free and not too near the break. -/
theorem after_test (rep : Represents h (front ++ block :: back) list)
    (unlinked : Unlinked h g list block previous following) :
    (block.stop + 1024 ≤ h.brk ∧ g.get .free block.stop ≠ 0) ↔
      ∃ next ∈ back.head?, Reaches h.brk next := by
  have tail := rep.tiles.next
  cases back with
  | nil =>
    -- Without a block behind, the stretch ends at the break.
    have last : block.stop = h.brk := tail
    simp only [List.head?_nil, Option.mem_def, reduceCtorEq, false_and, exists_false, iff_false]
    omega
  | cons next back =>
    have second : next ∈ front ++ block :: next :: back := by simp
    have place : next.addr = block.stop := tail.1
    have stored := unlinked.stored rep second (.inr (Nat.le_of_eq place.symm))
    have flag := stored.flag
    rw [place] at flag
    simp only [List.head?_cons, Option.mem_def, Option.some.injEq, exists_eq_left', Reaches, flag,
      place]
    cases next.free <;> simp

/-- What `free` reads and computes before it joins the block with its neighbours. -/
structure FreeReads (h : Heap) (block : Block) (prior : Nat) : Prop where
  nonnull : block.payload ≠ null
  header : wrapSub block.payload structSize = block.addr
  tagAddr : wrapSub block.addr dataSizeSize = block.addr - 8
  previous : wrapSub (wrapSub (wrapSub block.addr dataSizeSize)
    ((h.set .free block.addr 1).tag (wrapSub block.addr dataSizeSize))) structSize = prior
  following : wrap (block.addr + structSize + ((h.set .free block.addr 1).set .before block.addr
    prior).get .size block.addr + dataSizeSize) = block.stop
  before : (unlinked h block.addr prior block.stop).get .before block.addr = prior
  after : (unlinked h block.addr prior block.stop).get .after block.addr = block.stop
  /-- The pointer arithmetic of the source, in bytes. -/
  far : wrap (block.stop + structSize * structSize) = block.stop + 1024

/-- On a represented heap these are the header of the block and the ones next to it. -/
theorem Represents.freeReads (rep : Represents h (front ++ block :: back) list) :
    FreeReads h block (physicalBefore front block.addr) := by
  have member : block ∈ front ++ block :: back := by simp
  have bounds := rep.bounds member
  have low := rep.low
  have high := rep.high
  have limit := rep.limit
  obtain ⟨previous, previousFits⟩ := physicalBefore_eq rep
  simp only [Block.stop] at bounds
  have tagAddr : wrapSub block.addr dataSizeSize = block.addr - 8 :=
    wrapSub_of_le (by omega) (by simp only [dataSizeSize]; omega)
  have tagSame : (h.set .free block.addr 1).tag (wrapSub block.addr dataSizeSize) =
      h.tag (wrapSub block.addr dataSizeSize) := Heap.tag_set (by omega)
  -- The flag and the first link were written, so the size still reads the same.
  have sizeSame : ((h.set .free block.addr 1).set .before block.addr
      (physicalBefore front block.addr)).get .size block.addr = block.size := by
    rw [Heap.get_set_other (.inl rfl) (.inl (by decide)),
      Heap.get_set_other (.inl rfl) (.inl (by decide))]
    exact (rep.stored block member).size
  refine ⟨?_, ?_, tagAddr, by rw [tagSame, previous], ?_, ?_, ?_, ?_⟩
  · unfold null
    simp only [Block.payload]
    omega
  · simp only [Block.payload, structSize]
    rw [wrapSub_of_le (by omega) (by omega)]
    omega
  · rw [sizeSame, wrap_of_lt (by simp only [structSize, dataSizeSize]; omega)]
    simp only [structSize, dataSizeSize, Block.stop]
    omega
  · unfold unlinked
    rw [Heap.get_set_other (.inl rfl) (.inl (by decide)), Heap.get_set_same]
    exact Nat.mod_eq_of_lt (by simp only [Field.width]; omega)
  · unfold unlinked
    rw [Heap.get_set_same]
    exact Nat.mod_eq_of_lt (by simp only [Field.width, Block.stop]; omega)
  · exact wrap_of_lt (by simp only [structSize, Block.stop]; omega)

/-- `free` rewrites the header of the block and then joins the block with its neighbours. -/
theorem free_eq (rep : Represents h (front ++ block :: back) list) :
    free h block.payload =
      (mergeGetAddrs (unlinked h block.addr (physicalBefore front block.addr) block.stop) block.addr
        (physicalBefore front block.addr) (block.stop + 1024)).set .free block.addr 1 := by
  have reads := rep.freeReads
  have before := reads.before
  have after := reads.after
  unfold unlinked at before after
  simp only [free, if_neg reads.nonnull, reads.header, reads.previous, Heap.size, Heap.before,
    Heap.after, reads.following, before, after, reads.far, unlinked]

/-- Which join is made, by the outcomes of the two tests. -/
theorem mergeGetAddrs_cases {beforeStart afterEnd : Nat} {joinsAfter joinsBefore : Prop}
    (afterTest : (afterEnd ≤ g.brk ∧ g.free (g.after cur) ≠ 0) ↔ joinsAfter)
    (beforeTest : (beforeStart ≥ g.start ∧ g.free (g.before cur) ≠ 0) ↔ joinsBefore) :
    (joinsAfter → joinsBefore → mergeGetAddrs g cur beforeStart afterEnd = mergeBoth g cur) ∧
      (joinsAfter → ¬ joinsBefore →
        mergeGetAddrs g cur beforeStart afterEnd = mergeWithAfter g cur) ∧
      (¬ joinsAfter → joinsBefore →
        mergeGetAddrs g cur beforeStart afterEnd = mergeWithBefore g cur) ∧
      (¬ joinsAfter → ¬ joinsBefore →
        mergeGetAddrs g cur beforeStart afterEnd = linkAtHead g cur) := by
  rw [← afterTest, ← beforeTest]
  unfold mergeGetAddrs
  -- The source asks in turn for neither neighbour, both, the one behind, and the one in front.
  refine ⟨fun after before => ?_, fun after before => ?_, fun after before => ?_,
    fun after before => ?_⟩
  · rw [if_neg (fun both => both.1 after), if_pos ⟨after, before⟩]
  · rw [if_neg (fun both => both.1 after), if_neg (fun both => before both.2), if_pos after]
  · rw [if_neg (fun both => both.2 before), if_neg (fun both => after both.1), if_neg after,
      if_pos before]
  · rw [if_pos ⟨after, before⟩]

/-- A heap in which a block is released, and the payload of every other live block is kept. -/
def Frees (h g : Heap) (block : Block) (blocks : List Block) : Prop :=
  ∃ blocks' list', Released h.brk block blocks blocks' ∧ SameProcess h g ∧
    Represents g blocks' list' ∧
    ∀ other ∈ blocks, other.free = false → other ≠ block → PayloadKept h g other

/-- Each of the four joins releases the block. -/
theorem frees_alone (rep : Represents h (front ++ block :: back) list) (live : block.free = false)
    (unlinked : Unlinked h g list block previous following)
    (before : ∀ prior ∈ front.getLast?, prior.free = false)
    (after : ∀ next ∈ back.head?, ¬ Reaches h.brk next) :
    Frees h ((linkAtHead g block.addr).set .free block.addr 1) block (front ++ block :: back) := by
  obtain ⟨process, newRep, same⟩ := alone_represents rep live unlinked
  refine ⟨_, _, .alone front back before after, process, newRep,
    fun other inBlocks otherLive differs =>
      rep.stretch_kept [block] inBlocks otherLive (by grind) fun left right range => ?_⟩
  obtain ⟨rfl, _, rfl⟩ := range
  exact same

theorem frees_withBefore (rep : Represents h (front ++ prior :: block :: back) list)
    (free : prior.free = true) (live : block.free = false)
    (unlinked : Unlinked h g list block prior.addr following)
    (after : ∀ next ∈ back.head?, ¬ Reaches h.brk next) :
    Frees h ((mergeWithBefore g block.addr).set .free block.addr 1) block
      (front ++ prior :: block :: back) := by
  obtain ⟨process, newRep, same⟩ := withBefore_represents rep free live unlinked
  refine ⟨_, _, .withBefore front back prior free after, process, newRep,
    fun other inBlocks otherLive differs =>
      rep.stretch_kept [prior, block] inBlocks otherLive (by grind) fun left right range => ?_⟩
  obtain ⟨rfl, _, _, _, rfl⟩ := range
  exact same

theorem frees_withAfter (rep : Represents h (front ++ block :: next :: back) list)
    (live : block.free = false) (unlinked : Unlinked h g list block previous next.addr)
    (before : ∀ prior ∈ front.getLast?, prior.free = false) (reaches : Reaches h.brk next) :
    Frees h ((mergeWithAfter g block.addr).set .free block.addr 1) block
      (front ++ block :: next :: back) := by
  -- The block behind is free, so its header is a node of the list.
  obtain ⟨earlier, later, rfl⟩ :=
    List.append_of_mem ((rep.exactly _).mpr ⟨next, by simp, rfl, reaches.1⟩)
  obtain ⟨process, newRep, same⟩ := withAfter_represents rep live unlinked
  have nextFree := reaches.1
  refine ⟨_, _, .withAfter front back next before reaches, process, newRep,
    fun other inBlocks otherLive differs =>
      rep.stretch_kept [block, next] inBlocks otherLive (by grind) fun left right range => ?_⟩
  obtain ⟨rfl, _, _, _, rfl⟩ := range
  exact same

theorem frees_both (rep : Represents h (front ++ prior :: block :: next :: back) list)
    (free : prior.free = true) (live : block.free = false)
    (unlinked : Unlinked h g list block prior.addr next.addr) (reaches : Reaches h.brk next) :
    Frees h ((mergeBoth g block.addr).set .free block.addr 1) block
      (front ++ prior :: block :: next :: back) := by
  obtain ⟨earlier, later, rfl⟩ :=
    List.append_of_mem ((rep.exactly _).mpr ⟨next, by simp, rfl, reaches.1⟩)
  obtain ⟨process, newRep, same⟩ := both_represents rep free live unlinked
  have nextFree := reaches.1
  refine ⟨_, _, .both front back prior next free reaches, process, newRep,
    fun other inBlocks otherLive differs =>
      rep.stretch_kept [prior, block, next] inBlocks otherLive (by grind) fun left right range => ?_⟩
  obtain ⟨rfl, _, _, _, _, _, rfl⟩ := range
  exact same

/--
`free` releases a live block: the heap still represents a block list and a free list, and the
payload of every other live block is kept.
-/
theorem free_spec (rep : Represents h blocks list) (member : block ∈ blocks)
    (live : block.free = false) :
    ∃ blocks' list', Released h.brk block blocks blocks' ∧
      SameProcess h (free h block.payload) ∧ Represents (free h block.payload) blocks' list' ∧
      ∀ other ∈ blocks, other.free = false → other ≠ block →
        PayloadKept h (free h block.payload) other := by
  obtain ⟨front, back, rfl⟩ := List.append_of_mem member
  have bounds := rep.bounds member
  have high := rep.high
  have limit := rep.limit
  obtain ⟨_, previousFits⟩ := physicalBefore_eq rep
  simp only [Block.stop] at bounds
  have unlinked := unlinked_spec rep member live
    (show physicalBefore front block.addr < 2 ^ 64 by omega)
    (show block.stop < 2 ^ 64 by simp only [Block.stop]; omega)
  have beforeTest := before_test rep unlinked
  have afterTest := after_test rep unlinked
  rw [free_eq rep]
  generalize unlinkedIs : Malloc.unlinked h block.addr (physicalBefore front block.addr)
    block.stop = g at unlinked beforeTest afterTest ⊢
  have start : g.start = h.start := unlinked.process.start
  have brk : g.brk = h.brk := unlinked.process.brk
  -- Both tests of the program read the flags of the physical neighbours.
  obtain ⟨whenBoth, whenAfter, whenBefore, whenAlone⟩ :=
    @mergeGetAddrs_cases g block.addr (physicalBefore front block.addr) (block.stop + 1024)
      (∃ next ∈ back.head?, Reaches h.brk next) (∃ prior ∈ front.getLast?, prior.free = true)
      (by rw [Heap.free, Heap.after, unlinked.after, brk]; exact afterTest)
      (by rw [Heap.free, Heap.before, unlinked.before, start]; exact beforeTest)
  by_cases joinsBefore : ∃ prior ∈ front.getLast?, prior.free = true
  · obtain ⟨prior, isPrior, free⟩ := joinsBefore
    obtain ⟨front, rfl⟩ : ∃ rest, front = rest ++ [prior] := List.getLast?_eq_some_iff.mp isPrior
    have previous : physicalBefore (front ++ [prior]) block.addr = prior.addr := by
      simp [physicalBefore]
    rw [previous] at whenBoth whenBefore unlinked ⊢
    have tiles := rep.tiles
    simp only [List.append_assoc, List.singleton_append] at rep ⊢
    by_cases joinsAfter : ∃ next ∈ back.head?, Reaches h.brk next
    · rw [whenBoth joinsAfter ⟨prior, isPrior, free⟩]
      obtain ⟨next, isNext, reaches⟩ := joinsAfter
      obtain ⟨back, rfl⟩ : ∃ rest, back = next :: rest := List.head?_eq_some_iff.mp isNext
      have place : next.addr = block.stop := tiles.next.1
      rw [← place] at unlinked
      exact frees_both rep free live unlinked reaches
    · rw [whenBefore joinsAfter ⟨prior, isPrior, free⟩]
      exact frees_withBefore rep free live unlinked fun next isNext reaches =>
        joinsAfter ⟨next, isNext, reaches⟩
  · have before : ∀ prior ∈ front.getLast?, prior.free = false := fun prior isPrior =>
      Bool.eq_false_iff.mpr fun free => joinsBefore ⟨prior, isPrior, free⟩
    by_cases joinsAfter : ∃ next ∈ back.head?, Reaches h.brk next
    · rw [whenAfter joinsAfter joinsBefore]
      obtain ⟨next, isNext, reaches⟩ := joinsAfter
      obtain ⟨back, rfl⟩ : ∃ rest, back = next :: rest := List.head?_eq_some_iff.mp isNext
      have place : next.addr = block.stop := rep.tiles.next.1
      rw [← place] at unlinked
      exact frees_withAfter rep live unlinked before reaches
    · rw [whenAlone joinsAfter joinsBefore]
      exact frees_alone rep live unlinked before fun next isNext reaches =>
        joinsAfter ⟨next, isNext, reaches⟩

end SystemProgramming.Malloc
