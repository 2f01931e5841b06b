import SystemProgramming.Malloc.Arena

/-! `malloc` on a represented heap: first fit, reuse, splitting, and growth at the break. -/

namespace SystemProgramming.Malloc

open Foundations

variable {h h' : Heap} {blocks front back : List Block} {list earlier later : List Nat}
  {block : Block} {node prior size fuel found : Nat}

/-- What the search asks of a node. -/
def fits (h : Heap) (size node : Nat) : Bool :=
  decide (h.get .free node ≠ 0 ∧ size ≤ h.get .size node)

/-- The node that first fit takes from a free list, or null. -/
def firstFit (h : Heap) (size : Nat) (list : List Nat) : Nat := (list.find? (fits h size)).getD null

/-- One round of the search at a real node. -/
theorem findFreeLoop_node (nonnull : node ≠ null) :
    findFreeLoop h size (fuel + 1) node =
      if fits h size node then some node else findFreeLoop h size fuel (h.get .after node) := by
  rw [findFreeLoop, if_neg nonnull]
  simp [fits]

/-- Whatever the search returns is the first fit of the list it walks. -/
theorem findFreeLoop_eq (linked : Linked (h.get .before) (h.get .after) prior null list)
    (nonnull : ∀ node ∈ list, node ≠ null)
    (result : findFreeLoop h size fuel (list.headD null) = some found) :
    found = firstFit h size list := by
  -- Each round of the loop looks at the head of what is left of the list.
  induction fuel generalizing list prior with
  | zero => cases result
  | succ fuel ih =>
    cases list with
    | nil => simpa [findFreeLoop, firstFit] using result.symm
    | cons first rest =>
      rw [List.headD_cons, findFreeLoop_node (nonnull first (by simp))] at result
      unfold firstFit
      by_cases fit : fits h size first = true
      · rw [if_pos fit] at result
        simpa [fit] using result.symm
      · rw [if_neg fit, linked.2.1] at result
        rw [List.find?_cons_of_neg fit]
        exact ih linked.2.2 (fun node member => nonnull node (by simp [member])) result

/-- With more fuel than nodes the search returns. -/
theorem findFreeLoop_total (linked : Linked (h.get .before) (h.get .after) prior null list)
    (nonnull : ∀ node ∈ list, node ≠ null) (enough : list.length < fuel) :
    ∃ found, findFreeLoop h size fuel (list.headD null) = some found := by
  induction fuel generalizing list prior with
  | zero => omega
  | succ fuel ih =>
    cases list with
    | nil => exact ⟨null, by simp [findFreeLoop]⟩
    | cons first rest =>
      rw [List.headD_cons, findFreeLoop_node (nonnull first (by simp))]
      split
      · -- The search stops at a node that fits.
        exact ⟨first, rfl⟩
      · -- One round takes one node off the list and one unit off the fuel.
        rw [linked.2.1]
        exact ih linked.2.2 (fun node member => nonnull node (by simp [member]))
          (by simpa using enough)

/-- A null first fit means that no node of the list is large enough. -/
theorem firstFit_null (nonnull : ∀ node ∈ list, node ≠ null)
    (free : ∀ node ∈ list, h.get .free node ≠ 0) (absent : firstFit h size list = null) :
    ∀ node ∈ list, h.get .size node < size := by
  unfold firstFit at absent
  cases located : list.find? (fits h size) with
  | none =>
    intro node member
    have small := List.find?_eq_none.mp located node member
    simp only [fits, decide_eq_true_eq] at small
    -- A free node that is not taken is too small.
    have := free node member
    omega
  | some first =>
    rw [located] at absent
    exact absurd absent (nonnull first (List.mem_of_find?_eq_some located))

/-- A nonnull first fit is a node of the list that is large enough. -/
theorem firstFit_some (present : firstFit h size list ≠ null) :
    firstFit h size list ∈ list ∧ size ≤ h.get .size (firstFit h size list) := by
  unfold firstFit at present ⊢
  cases located : list.find? (fits h size) with
  | none => exact absurd (by rw [located]; rfl) present
  | some first =>
    have fit := List.find?_some located
    simp only [fits, decide_eq_true_eq] at fit
    exact ⟨List.mem_of_find?_eq_some located, fit.2⟩

/-- Unlinking a block that is handed out whole. -/
theorem reuse_represents (rep : Represents h (front ++ block :: back)
      (earlier ++ block.addr :: later)) :
    SameProcess h (deleteDataNode (h.set .free block.addr 0) block.addr) ∧
      Represents (deleteDataNode (h.set .free block.addr 0) block.addr)
        (front ++ { block with free := false } :: back) (earlier ++ later) ∧
      Untouched (earlier ++ block.addr :: later) block.addr block.stop h
        (deleteDataNode (h.set .free block.addr 0) block.addr) := by
  have nodes := rep.nodes
  have links : FreeLinks (h.set .free block.addr 0) (earlier ++ block.addr :: later) :=
    rep.links.set (fun other member => nodes.apart other member _ (by simp)) (.inr (.inl rfl))
  obtain ⟨process, newLinks, kept⟩ := deleteDataNode_spec nodes links
  have same : Untouched (earlier ++ block.addr :: later) block.addr block.stop h
      (deleteDataNode (h.set .free block.addr 0) block.addr) :=
    (untouched_set (by omega) (by simp only [Block.stop]; omega)).trans
      ((kept block.addr block.stop).mono (fun node member => .inl (by grind)) (.inl (by omega))
        (.inl (by omega)))
  refine ⟨sameProcess_set.trans process, ?_, same⟩
  have stored : Stored (h.set .free block.addr 0) { block with free := false } := by
    have old := rep.stored block (by simp)
    refine ⟨?_, Heap.get_set_same _, ?_⟩
    · rw [Heap.get_set_other (.inl rfl) (.inl (by decide))]
      exact old.size
    · rw [Heap.tag_set (by simp only [Block.tagAddr]; omega)]
      exact old.tag
  -- The stretch is the block itself; the node that leaves the list is its header.
  refine rep.exchange [block] [{ block with free := false }] (sameProcess_set.trans process)
    (by simp) (tiles_single block) (tiles_single { block with free := false }) same
    ?_ newLinks (nodes.remove).distinct fun node => ?_
  · intro only member
    rw [List.mem_singleton.mp member]
    -- Unlinking writes links of other nodes only, and these lie outside the block.
    refine stored.frame (kept 0 0) (by omega) fun link linkMember => ?_
    have inList : link ∈ earlier ++ block.addr :: later := by grind
    have outside := rep.node_outside inList (show block ∈ front ++ block :: back by simp)
    simp only [Block.stop] at outside ⊢
    omega
  · have distinct := nodes.distinct
    grind

/-- The second header of a split, with its tag and the shortened tag of the first part. -/
def splitPrepared (h : Heap) (cur newData newsize rest : Nat) : Heap :=
  (((((h.set .size newData rest).set .free newData 1).set .before newData (h.get .before cur)).set
    .after newData (h.get .after cur)).setTag (cur + 32 + newsize) newsize).setTag
      (newData + 32 + rest) rest

/-- What a split leaves for the second part, where both headers and tags fit. -/
theorem remainder_eq {total newsize : Nat} (room : newsize + 40 < total) (bound : total < 2 ^ 64) :
    wrapSub (wrapSub (wrapSub total newsize) structSize) dataSizeSize = total - newsize - 40 := by
  -- No subtraction goes below zero, so none of them wraps.
  have first := wrapSub_of_le bound (show newsize ≤ total by omega)
  have second := wrapSub_of_le (show total - newsize < 2 ^ 64 by omega)
    (show 32 ≤ total - newsize by omega)
  have third := wrapSub_of_le (show total - newsize - 32 < 2 ^ 64 by omega)
    (show 8 ≤ total - newsize - 32 by omega)
  rw [first, second, third]
  omega

/-- The second header of a split lies behind the tag of the first part. -/
theorem secondHeader_eq {cur newsize : Nat} (bound : cur + 40 + newsize < 2 ^ 64) :
    wrap (cur + structSize + newsize + dataSizeSize) = cur + 40 + newsize := by
  rw [wrap_of_lt (by simp only [structSize, dataSizeSize]; omega)]
  simp only [structSize, dataSizeSize]
  omega

/-- Splitting prepares the second part, relinks it, and then shortens the first part. -/
theorem splitMetadata_eq {cur newsize total : Nat} (sizeIs : h.get .size cur = total)
    (room : newsize + 40 < total) (bound : cur + 40 + total ≤ 2 ^ 63) :
    splitMetadata h cur newsize =
      ((relistSplit (splitPrepared h cur (cur + 40 + newsize) newsize (total - newsize - 40)) cur
        (cur + 40 + newsize)).set .size cur newsize).set .free cur 0 := by
  have place := secondHeader_eq (show cur + 40 + newsize < 2 ^ 64 by omega)
  have difference := remainder_eq room (by omega)
  have away : Apart cur (cur + 40 + newsize) := .inr (.inl (by omega))
  have differ : cur + 40 + newsize ≠ cur := by omega
  -- The links of the first part and the new size are read back unchanged on the way.
  have readBefore : ∀ a b, ((h.set .size (cur + 40 + newsize) a).set .free (cur + 40 + newsize)
      b).get .before cur = h.get .before cur := fun a b => by
    rw [Heap.get_set_other away (.inr differ), Heap.get_set_other away (.inr differ)]
  have readAfter : ∀ a b c, (((h.set .size (cur + 40 + newsize) a).set .free (cur + 40 + newsize)
      b).set .before (cur + 40 + newsize) c).get .after cur = h.get .after cur := fun a b c => by
    rw [Heap.get_set_other away (.inr differ), Heap.get_set_other away (.inr differ),
      Heap.get_set_other away (.inr differ)]
  have readSize : ∀ a b c, (((((h.set .size (cur + 40 + newsize) (total - newsize - 40)).set .free
      (cur + 40 + newsize) a).set .before (cur + 40 + newsize) b).set .after (cur + 40 + newsize)
      c).setTag (cur + 32 + newsize) newsize).get .size (cur + 40 + newsize) =
        total - newsize - 40 := fun a b c => by
    rw [Heap.get_setTag (by omega), Heap.get_set_other (.inl rfl) (.inl (by decide)),
      Heap.get_set_other (.inl rfl) (.inl (by decide)),
      Heap.get_set_other (.inl rfl) (.inl (by decide)), Heap.get_set_same]
    exact Nat.mod_eq_of_lt (by simp only [Field.width]; omega)
  have firstTag : wrap (cur + structSize + newsize) = cur + 32 + newsize :=
    wrap_of_lt (by simp only [structSize]; omega)
  have secondTag : wrap (cur + 40 + newsize + structSize + (total - newsize - 40)) =
      cur + 40 + newsize + 32 + (total - newsize - 40) :=
    wrap_of_lt (by simp only [structSize]; omega)
  simp only [splitMetadata, Heap.size, Heap.before, Heap.after, place, sizeIs, difference,
    readBefore, readAfter, firstTag, readSize, secondTag, splitPrepared]

/-- What is known before the second part of a split takes the place of the block in the list. -/
structure SplitReady (h g : Heap) (cur newsize rest : Nat) (list : List Nat) : Prop where
  process : SameProcess h g
  links : FreeLinks g list
  before : g.get .before (cur + 40 + newsize) = g.get .before cur
  after : g.get .after (cur + 40 + newsize) = g.get .after cur
  tag : g.tag (cur + 32 + newsize) = newsize
  fresh : Stored g ⟨cur + 40 + newsize, rest, true⟩
  kept : ∀ touched, Untouched touched (cur + 32) (cur + 80 + newsize + rest) h g

/-- Preparing a split, where no node of the list lies inside the block. -/
theorem splitPrepared_ready {cur newsize rest : Nat} (links : FreeLinks h list)
    (outside : ∀ other ∈ list, other = cur ∨ other + 40 ≤ cur ∨ cur + 80 + newsize + rest ≤ other)
    (fitsNew : newsize < 2 ^ 64) (fitsRest : rest < 2 ^ 64) :
    SplitReady h (splitPrepared h cur (cur + 40 + newsize) newsize rest) cur newsize rest list := by
  have apart : ∀ other ∈ list, Apart other (cur + 40 + newsize) := fun other member => by
    have := outside other member
    unfold Apart
    omega
  have absent : cur + 40 + newsize ∉ list := fun member => by
    have := outside _ member
    omega
  have tags : ∀ address, address = cur + 32 + newsize ∨ address = cur + 40 + newsize + 32 + rest →
      ∀ other ∈ list, address + 8 ≤ other ∨ other + 32 ≤ address := fun address place other member =>
    by have := outside other member; omega
  -- All six writes lie behind the first header, inside the block.
  have kept : ∀ touched, Untouched touched (cur + 32) (cur + 80 + newsize + rest) h
      (splitPrepared h cur (cur + 40 + newsize) newsize rest) := fun touched =>
    (((((untouched_set (by omega) (by omega)).trans (untouched_set (by omega) (by omega))).trans
      (untouched_set (by omega) (by omega))).trans (untouched_set (by omega) (by omega))).trans
      (untouched_setTag (by omega) (by omega))).trans (untouched_setTag (by omega) (by omega))
  have keepCur : ∀ field, (splitPrepared h cur (cur + 40 + newsize) newsize rest).get field cur =
      h.get field cur := fun field => (kept []).get_all (.inl (by omega))
  refine ⟨⟨rfl, rfl, rfl, rfl⟩, ?_, ?_, ?_, ?_, .of_fields ?_ ?_ ?_, kept⟩
  · exact (((((links.set apart (.inr (.inr absent))).set apart (.inr (.inr absent))).set apart
      (.inr (.inr absent))).set apart (.inr (.inr absent))).setTag (tags _ (.inl rfl))).setTag
        (tags _ (.inr rfl))
  · -- The links of the second part are copies, and those of the first part are not written.
    rw [keepCur]
    unfold splitPrepared
    rw [Heap.get_setTag (by omega), Heap.get_setTag (by omega),
      Heap.get_set_other (.inl rfl) (.inl (by decide)), Heap.get_set_same]
    exact Nat.mod_eq_of_lt (h.get_lt _ _)
  · rw [keepCur]
    unfold splitPrepared
    rw [Heap.get_setTag (by omega), Heap.get_setTag (by omega), Heap.get_set_same]
    exact Nat.mod_eq_of_lt (h.get_lt _ _)
  · unfold splitPrepared
    rw [Heap.tag_setTag_other (by omega), Heap.tag_setTag_same fitsNew]
  · unfold splitPrepared
    rw [Heap.get_setTag (by omega), Heap.get_setTag (by omega),
      Heap.get_set_other (.inl rfl) (.inl (by decide)),
      Heap.get_set_other (.inl rfl) (.inl (by decide)),
      Heap.get_set_other (.inl rfl) (.inl (by decide)), Heap.get_set_same]
    exact Nat.mod_eq_of_lt fitsRest
  · unfold splitPrepared
    rw [Heap.get_setTag (by omega), Heap.get_setTag (by omega),
      Heap.get_set_other (.inl rfl) (.inl (by decide)),
      Heap.get_set_other (.inl rfl) (.inl (by decide)), Heap.get_set_same]
    rfl
  · exact Heap.tag_setTag_same fitsRest

/-- Finishing a split: the second part is in the list and the first part has its new header. -/
theorem SplitReady.finish {g : Heap} {cur newsize rest : Nat}
    (ready : SplitReady h g cur newsize rest (earlier ++ cur :: later))
    (nodes : Nodes (earlier ++ cur :: later))
    (outside : ∀ other ∈ earlier ++ cur :: later,
      other = cur ∨ other + 40 ≤ cur ∨ cur + 80 + newsize + rest ≤ other)
    (bound : cur + 80 + newsize + rest ≤ 2 ^ 63) (g' : Heap)
    (done : g' = ((relistSplit g cur (cur + 40 + newsize)).set .size cur newsize).set .free cur 0) :
    SameProcess g g' ∧ FreeLinks g' (earlier ++ (cur + 40 + newsize) :: later) ∧
      Stored g' ⟨cur, newsize, false⟩ ∧ Stored g' ⟨cur + 40 + newsize, rest, true⟩ ∧
      Untouched (earlier ++ later) cur (cur + 32) g g' := by
  subst done
  have others : ∀ other ∈ earlier ++ later,
      other + 40 ≤ cur ∨ cur + 80 + newsize + rest ≤ other := fun other member => by
    have place := outside other (by grind)
    have distinct := nodes.distinct
    have different : other ≠ cur := by grind
    omega
  have low := nodes.low cur (by simp)
  have apart : ∀ other ∈ earlier ++ later, Apart (cur + 40 + newsize) other :=
    fun other member => by
      have := others other member
      unfold Apart
      omega
  obtain ⟨process, links, relinked⟩ := relistSplit_spec nodes ready.links (by omega) (by omega) apart
    (fun member => by have := others _ member; omega) ready.before ready.after
  have header : ∀ other ∈ earlier ++ (cur + 40 + newsize) :: later, Apart other cur :=
    fun other member => by
      have place : other = cur + 40 + newsize ∨ other ∈ earlier ++ later := by grind
      unfold Apart
      rcases place with rfl | inList
      · omega
      · have := others other inList
        omega
  have kept : Untouched (earlier ++ later) cur (cur + 32) g
      (((relistSplit g cur (cur + 40 + newsize)).set .size cur newsize).set .free cur 0) :=
    ((relinked _ _).trans (untouched_set (by omega) (by omega))).trans
      (untouched_set (by omega) (by omega))
  refine ⟨(process.trans sameProcess_set).trans sameProcess_set,
    (links.set header (.inl rfl)).set header (.inr (.inl rfl)), .of_fields ?_ ?_ ?_, ?_, kept⟩
  · rw [Heap.get_set_other (.inl rfl) (.inl (by decide)), Heap.get_set_same]
    exact Nat.mod_eq_of_lt (by simp only [Field.width]; omega)
  · exact Heap.get_set_same _
  · -- The shortened tag was written while the split was prepared.
    rw [kept.tag (by omega) (fun other member => by have := others other member; omega)]
    exact ready.tag
  · refine ready.fresh.frame kept (.inr (show cur + 32 ≤ cur + 40 + newsize by omega))
      fun other member => .inr ?_
    show other + 32 ≤ cur + 40 + newsize ∨ cur + 40 + newsize + 40 + rest ≤ other
    have := others other member
    omega

/-- Splitting a free block: the first part is handed out, the second part stays in the list. -/
theorem split_represents {newsize : Nat} (rep : Represents h (front ++ block :: back)
      (earlier ++ block.addr :: later)) (room : newsize + 40 < block.size) :
    SameProcess h (splitMetadata (h.set .free block.addr 0) block.addr newsize) ∧
      Represents (splitMetadata (h.set .free block.addr 0) block.addr newsize)
        (front ++ (⟨block.addr, newsize, false⟩ ::
          ⟨block.addr + 40 + newsize, block.size - newsize - 40, true⟩ :: back))
        (earlier ++ (block.addr + 40 + newsize) :: later) ∧
      Untouched (earlier ++ block.addr :: later) block.addr block.stop h
        (splitMetadata (h.set .free block.addr 0) block.addr newsize) := by
  have inside : block ∈ front ++ block :: back := by simp
  have nodes := rep.nodes
  have place := rep.bounds inside
  have high := rep.high
  have limit := rep.limit
  simp only [Block.stop] at place
  -- The free flag of the block is cleared before the split starts.
  have sizeIs : (h.set .free block.addr 0).get .size block.addr = block.size := by
    rw [Heap.get_set_other (.inl rfl) (.inl (by decide))]
    exact (rep.stored block inside).size
  rw [splitMetadata_eq sizeIs room (by omega)]
  have links : FreeLinks (h.set .free block.addr 0) (earlier ++ block.addr :: later) :=
    rep.links.set (fun other member => nodes.apart other member _ (by simp)) (.inr (.inl rfl))
  -- From here on the size of the second part is just a number.
  generalize whole : block.size - newsize - 40 = rest
  have outside : ∀ other ∈ earlier ++ block.addr :: later, other = block.addr ∨
      other + 40 ≤ block.addr ∨ block.addr + 80 + newsize + rest ≤ other := fun other member => by
    have := rep.node_outside member inside
    simp only [Block.stop] at this
    omega
  have ready := splitPrepared_ready links outside (by omega) (by omega)
  obtain ⟨process, newLinks, first, second, kept⟩ :=
    ready.finish nodes outside (by omega) _ rfl
  have same := (untouched_set (by omega) (by simp only [Block.stop]; omega)).trans
    (((ready.kept (earlier ++ block.addr :: later)).mono (fun _ member => .inl member)
      (.inl (by omega)) (.inl (by simp only [Block.stop]; omega))).trans
    (kept.mono (fun node member => .inl (by grind)) (.inl (Nat.le_refl block.addr))
      (.inl (show _ ≤ block.stop by simp only [Block.stop]; omega))))
  refine ⟨(sameProcess_set.trans ready.process).trans process, ?_, same⟩
  -- The two parts tile the range of the old block.
  have becomes : Tiles Block.addr Block.stop block.addr
      [⟨block.addr, newsize, false⟩, ⟨block.addr + 40 + newsize, rest, true⟩] block.stop := by
    simp only [Tiles, Block.stop, true_and]
    omega
  refine rep.exchange [block] [⟨block.addr, newsize, false⟩, ⟨block.addr + 40 + newsize, rest, true⟩]
    ((sameProcess_set.trans ready.process).trans process) (by simp) (tiles_single block) becomes
    same (by grind) newLinks ?_ fun node => ?_
  · have distinct := nodes.distinct
    have absent : block.addr + 40 + newsize ∉ earlier ++ block.addr :: later := fun member => by
      have := outside _ member
      omega
    grind
  · have distinct := nodes.distinct
    simp only [List.mem_cons, List.not_mem_nil, or_false, exists_eq_or_imp, exists_eq_left, forall_eq,
      Bool.false_eq_true, and_false, and_true, false_or]
    grind

/-- The header of a block at the break, before it is linked. -/
def grownHeader (h : Heap) (size : Nat) : Heap :=
  (((({ h with brk := h.brk + (40 + size), mem := h.mem.fill h.brk (40 + size) 0 } : Heap).set .size
    h.brk size).set .free h.brk 0).set .before h.brk null).set .after h.brk h.head

/-- Where the kernel grants the memory, growing writes a header, pushes it, and writes the tag. -/
theorem expandHeap_eq (positive : 0 < h.brk) (room : h.brk + 40 + size ≤ h.limit)
    (limit : h.limit ≤ 2 ^ 63) :
    expandHeap h size =
      (h.brk, (pushHead (grownHeader h size) h.brk).setTag (h.brk + 32 + size) size) := by
  have total : wrap (structSize + size + dataSizeSize) = 40 + size := by
    rw [wrap_of_lt (by simp only [structSize, dataSizeSize]; omega)]
    simp only [structSize, dataSizeSize]
    omega
  -- The increment is a positive number, and the kernel has room for it.
  have granted : sbrk h (40 + size) =
      (h.brk, { h with brk := h.brk + (40 + size), mem := h.mem.fill h.brk (40 + size) 0 }) := by
    unfold sbrk
    rw [if_pos (by omega), if_pos (by omega)]
  -- The new memory is zero, so the word that the failure test reads is not -1.
  have zero : (h.mem.fill h.brk (40 + size) 0).load h.brk 4 = 0 :=
    Memory.load_zero fun a above below => Memory.fill_of_inside above (by omega)
  have place : wrap (h.brk + structSize + size) = h.brk + 32 + size :=
    wrap_of_lt (by simp only [structSize]; omega)
  simp only [expandHeap, total, granted, zero, place, if_neg (show ¬ 0 = 2 ^ 32 - 1 by decide)]
  rfl

/-- The fields of the new header; its links are those of a first node. -/
theorem grownHeader_fields (sizeFits : size < 2 ^ 64) (headFits : h.head < 2 ^ 64) :
    (grownHeader h size).get .size h.brk = size ∧ (grownHeader h size).get .free h.brk = 0 ∧
      (grownHeader h size).get .before h.brk = null ∧
      (grownHeader h size).get .after h.brk = h.head := by
  unfold grownHeader
  refine ⟨?_, ?_, ?_, ?_⟩
  · rw [Heap.get_set_other (.inl rfl) (.inl (by decide)),
      Heap.get_set_other (.inl rfl) (.inl (by decide)),
      Heap.get_set_other (.inl rfl) (.inl (by decide)), Heap.get_set_same]
    exact Nat.mod_eq_of_lt sizeFits
  · rw [Heap.get_set_other (.inl rfl) (.inl (by decide)),
      Heap.get_set_other (.inl rfl) (.inl (by decide)), Heap.get_set_same]
    rfl
  · rw [Heap.get_set_other (.inl rfl) (.inl (by decide)), Heap.get_set_same]
    rfl
  · rw [Heap.get_set_same]
    exact Nat.mod_eq_of_lt headFits

/-- The zero bytes and the header lie at the break, above every node of the list. -/
theorem grownHeader_links (links : FreeLinks h list) (below : ∀ other ∈ list, other + 40 ≤ h.brk) :
    FreeLinks (grownHeader h size) list ∧
      Untouched list h.brk (h.brk + 40 + size) h (grownHeader h size) := by
  have apart : ∀ other ∈ list, Apart other h.brk := fun other member =>
    .inr (.inl (by have := below other member; omega))
  have absent : h.brk ∉ list := fun member => by have := below _ member; omega
  -- The kernel clears the new bytes, and then the four fields of the header are written.
  have filled : Untouched list h.brk (h.brk + 40 + size) h
      { h with brk := h.brk + (40 + size), mem := h.mem.fill h.brk (40 + size) 0 } :=
    fun address outside _ => Memory.fill_of_outside (by omega)
  have filledLinks : FreeLinks
      { h with brk := h.brk + (40 + size), mem := h.mem.fill h.brk (40 + size) 0 } list := by
    refine ⟨links.linked.congr (fun other member => ?_) (fun other member => ?_), links.head⟩
    · have := below other member
      exact Memory.load_congr fun address _ upper => Memory.fill_of_outside
        (.inl (by simp only [Field.offset, Field.width] at upper; omega))
    · have := below other member
      exact Memory.load_congr fun address _ upper => Memory.fill_of_outside
        (.inl (by simp only [Field.offset, Field.width] at upper; omega))
  constructor
  · exact (((filledLinks.set apart (.inl rfl)).set apart (.inr (.inl rfl))).set apart
      (.inr (.inr absent))).set apart (.inr (.inr absent))
  · exact (((filled.trans (untouched_set (by omega) (by omega))).trans
      (untouched_set (by omega) (by omega))).trans (untouched_set (by omega) (by omega))).trans
      (untouched_set (by omega) (by omega))

/-- A granted growth appends a block that is not free. -/
theorem grow_represents (rep : Represents h blocks list) (started : h.start ≠ null)
    (room : h.brk + 40 + size ≤ h.limit) :
    (expandHeap h size).1 = h.brk ∧
    (deleteDataNode (expandHeap h size).2 h.brk).brk = h.brk + 40 + size ∧
    (deleteDataNode (expandHeap h size).2 h.brk).start = h.start ∧
    Represents (deleteDataNode (expandHeap h size).2 h.brk) (blocks ++ [⟨h.brk, size, false⟩]) list ∧
    Untouched list h.brk (h.brk + 40 + size) h (deleteDataNode (expandHeap h size).2 h.brk) := by
  have limit := rep.limit
  have above := rep.tiles.le
  have low := rep.low
  have nodes := rep.nodes
  rw [expandHeap_eq (by omega) room limit]
  have below : ∀ other ∈ list, other + 40 ≤ h.brk := fun other member => by
    obtain ⟨owner, inside, rfl, _⟩ := rep.block_of_node member
    have := (rep.bounds inside).2
    simp only [Block.stop] at this
    omega
  have apart : ∀ other ∈ list, Apart other h.brk := fun other member =>
    .inr (.inl (by have := below other member; omega))
  -- The break is above every node, so the new header is none of them.
  have absent : h.brk ∉ list := fun member => by have := below _ member; omega
  have newNodes : Nodes (h.brk :: list) :=
    nodes.cons (by omega) (by omega) absent fun other member => (apart other member).symm
  have headFits : h.head < 2 ^ 64 := by
    rw [rep.links.head]
    cases list with
    | nil => decide
    | cons first list => exact nodes.bounded first (by simp)
  obtain ⟨sizeIs, flagIs, prior, next⟩ := @grownHeader_fields h size (by omega) headFits
  obtain ⟨headerLinks, header⟩ := @grownHeader_links h list size rep.links below
  obtain ⟨pushProcess, pushed, pushKept⟩ := pushHead_spec newNodes headerLinks prior next
  have tagLinks : FreeLinks ((pushHead (grownHeader h size) h.brk).setTag (h.brk + 32 + size) size)
      ([] ++ h.brk :: list) := pushed.setTag fun other member => by
    rcases List.mem_cons.mp member with rfl | old
    · omega
    · have := below other old
      omega
  -- Linking the block and unlinking it again leaves the list as it was.
  obtain ⟨process, links, kept⟩ := deleteDataNode_spec newNodes tagLinks
  have onlyLinks : ∀ link ∈ list, Apart h.brk link := fun link member => (apart link member).symm
  have stored : Stored ((pushHead (grownHeader h size) h.brk).setTag (h.brk + 32 + size) size)
      ⟨h.brk, size, false⟩ := by
    refine .of_fields ?_ ?_ (Heap.tag_setTag_same (by omega))
    · rw [Heap.get_setTag (by omega), (pushKept 0 0).get (.inr (by omega)) (.inl rfl) onlyLinks, sizeIs]
    · rw [Heap.get_setTag (by omega), (pushKept 0 0).get (.inr (by omega)) (.inr rfl) onlyLinks, flagIs]
      rfl
  have same : Untouched list h.brk (h.brk + 40 + size) h (deleteDataNode
      ((pushHead (grownHeader h size) h.brk).setTag (h.brk + 32 + size) size) h.brk) :=
    ((header.trans (pushKept _ _)).trans (untouched_setTag (by omega) (by omega))).trans (kept _ _)
  have brk := process.brk.trans pushProcess.brk
  have start := process.start.trans pushProcess.start
  have newLimit := process.limit.trans pushProcess.limit
  refine ⟨rfl, brk.trans (Nat.add_assoc _ _ _).symm, start,
    rep.extend started size (brk.trans (Nat.add_assoc _ _ _).symm) start newLimit room same
      (stored.frame (kept 0 0) (.inr (Nat.zero_le _)) fun link member => ?_) links, same⟩
  have := below link member
  exact .inr (.inl (by show link + 32 ≤ h.brk; omega))

/-- The first statement of `malloc`: the heap gets its start. -/
def begun (h : Heap) : Heap := if h.start = null then { h with start := h.brk } else h

/-- Recording the start changes nothing that the heap represents. -/
theorem begun_represents (rep : Represents h blocks list) :
    Represents (begun h) blocks list ∧ (begun h).start ≠ null ∧ (begun h).brk = h.brk ∧
      (begun h).limit = h.limit ∧ (begun h).mem = h.mem ∧ (begun h).head = h.head := by
  have low := rep.low
  have above := rep.tiles.le
  unfold begun
  by_cases fresh : h.start = null
  · rw [if_pos fresh]
    have nonnull : h.brk ≠ null := by unfold null; omega
    -- The start was not set, so the heap began at the break, as it does now.
    have base : Heap.base { h with start := h.brk } = h.base := by
      simp only [Heap.base, if_neg nonnull, if_pos fresh]
    refine ⟨?_, nonnull, rfl, rfl, rfl, rfl⟩
    exact { tiles := by rw [base]; exact rep.tiles
            stored := fun block member => ⟨(rep.stored block member).size,
              (rep.stored block member).flag, (rep.stored block member).tag⟩
            links := ⟨rep.links.linked, rep.links.head⟩
            distinct := rep.distinct
            exactly := rep.exactly
            guard := by rw [base]; exact rep.guard
            low := by rw [base]; exact low
            high := rep.high
            limit := rep.limit }
  · rw [if_neg fresh]
    exact ⟨rep, fresh, rfl, rfl, rfl, rfl⟩

/-- The search looks at nothing but the bytes. -/
theorem findFreeLoop_congr (same : h'.mem = h.mem) :
    findFreeLoop h' size fuel node = findFreeLoop h size fuel node := by
  induction fuel generalizing node with
  | zero => rfl
  | succ fuel ih =>
    have reads : h'.get = h.get := by
      funext field node
      rw [Heap.get, same, Heap.get]
    rw [findFreeLoop, findFreeLoop, Heap.free, Heap.size, Heap.after, reads, ih]

/-- The kernel grants the growth that a request may need. -/
def Granted (h : Heap) (size : Nat) : Prop :=
  size ≠ 0 → ∀ fuel, findFreeGetAddr fuel h size = some null → h.brk + 40 + size ≤ h.limit

/-- The result of the search on a represented heap. -/
theorem findFreeGetAddr_spec (rep : Represents h blocks list)
    (result : findFreeGetAddr fuel h size = some found) :
    (found = null ∧ ∀ block ∈ blocks, block.free = true → block.size < size) ∨
      ∃ front back block earlier later, blocks = front ++ block :: back ∧
        list = earlier ++ block.addr :: later ∧ block.free = true ∧ size ≤ block.size ∧
        found = block.addr ∧ found ≠ null := by
  have nonnull : ∀ node ∈ list, node ≠ null := fun node member => rep.nodes.nonnull member
  unfold findFreeGetAddr at result
  rw [rep.links.head] at result
  have first := findFreeLoop_eq rep.links.linked nonnull result
  by_cases absent : found = null
  · refine .inl ⟨absent, fun block member free => ?_⟩
    have allFree : ∀ node ∈ list, h.get .free node ≠ 0 := fun node inList => by
      obtain ⟨owner, inside, rfl, ownerFree⟩ := rep.block_of_node inList
      rw [(rep.stored owner inside).flag, ownerFree]
      decide
    -- A null result means that every free block is too small.
    have small := firstFit_null nonnull allFree (first.symm.trans absent) block.addr
      ((rep.exactly _).mpr ⟨block, member, rfl, free⟩)
    rwa [(rep.stored block member).size] at small
  · right
    -- Otherwise the result is a node of the list, hence the header of a free block.
    obtain ⟨inList, large⟩ := firstFit_some (first ▸ absent)
    rw [← first] at inList large
    obtain ⟨block, member, rfl, free⟩ := rep.block_of_node inList
    rw [(rep.stored block member).size] at large
    obtain ⟨front, back, split⟩ := List.append_of_mem member
    obtain ⟨earlier, later, place⟩ := List.append_of_mem inList
    exact ⟨front, back, block, earlier, later, split, place, free, large, rfl, absent⟩

/-- On a represented heap the search returns for enough fuel. -/
theorem findFreeGetAddr_total (rep : Represents h blocks list) (enough : list.length < fuel) :
    ∃ found, findFreeGetAddr fuel h size = some found := by
  unfold findFreeGetAddr
  rw [rep.links.head]
  exact findFreeLoop_total rep.links.linked (fun node member => rep.nodes.nonnull member) enough

/-- Asking for nothing only records the start of the heap. -/
theorem malloc_zero : malloc fuel h 0 = some (null, begun h) := rfl

/-- A positive request returns nothing as long as the search has not returned. -/
theorem malloc_unfinished (positive : size ≠ 0)
    (searching : findFreeGetAddr fuel (begun h) size = none) : malloc fuel h size = none := by
  unfold begun at searching
  simp only [malloc, if_neg positive, searching]

/-- A positive request grows the heap, cuts the chosen block, or hands it out whole. -/
theorem malloc_eq (positive : size ≠ 0)
    (searched : findFreeGetAddr fuel (begun h) size = some found) :
    malloc fuel h size =
      if found = null then
        if (expandHeap (begun h) size).1 = null then some (null, (expandHeap (begun h) size).2)
        else some (wrap ((expandHeap (begun h) size).1 + structSize),
          deleteDataNode (expandHeap (begun h) size).2 (expandHeap (begun h) size).1)
      else if wrapSub (((begun h).set .free found 0).size found) size > structSize + dataSizeSize then
        some (wrap (found + structSize), splitMetadata ((begun h).set .free found 0) found size)
      else some (wrap (found + structSize), deleteDataNode ((begun h).set .free found 0) found) := by
  unfold begun at searched ⊢
  simp only [malloc, if_neg positive, searched]

/-- A block that was found is cut if there is room for a second header, and else it is handed out. -/
theorem found_spec (rep : Represents h (front ++ block :: back) (earlier ++ block.addr :: later))
    (started : h.start ≠ null) (free : block.free = true) (large : size ≤ block.size) {pointer : Nat}
    (result : (if wrapSub ((h.set .free block.addr 0).size block.addr) size >
          structSize + dataSizeSize then
        some (wrap (block.addr + structSize),
          splitMetadata (h.set .free block.addr 0) block.addr size)
      else some (wrap (block.addr + structSize),
        deleteDataNode (h.set .free block.addr 0) block.addr)) = some (pointer, h')) :
    ∃ served blocks' list',
      Served size block.addr (front ++ block :: back) h.brk served blocks' h'.brk ∧
      pointer = served.payload ∧ Represents h' blocks' list' ∧ h'.start ≠ null ∧
      ∀ other ∈ front ++ block :: back, other.free = false → PayloadKept h h' other := by
  have inside : block ∈ front ++ block :: back := by simp
  have place := rep.bounds inside
  have high := rep.high
  have limit := rep.limit
  simp only [Block.stop] at place
  have sizeIs : (h.set .free block.addr 0).size block.addr = block.size := by
    rw [Heap.size, Heap.get_set_other (.inl rfl) (.inl (by decide))]
    exact (rep.stored block inside).size
  have pointerIs : wrap (block.addr + structSize) = block.payload :=
    wrap_of_lt (by simp only [structSize]; omega)
  -- Writes inside the chosen block reach no other payload.
  have keepOthers : ∀ {g : Heap}, Untouched (earlier ++ block.addr :: later) block.addr
      block.stop h g → ∀ other ∈ front ++ block :: back, other.free = false →
      PayloadKept h g other := fun same other member live => by
    refine rep.payload_kept member live ?_ same
    rcases rep.apart member inside with rfl | away
    · rw [live] at free; cases free
    · exact away
  rw [sizeIs, wrapSub_of_le (by omega) large, pointerIs] at result
  by_cases cut : block.size - size > structSize + dataSizeSize
  · rw [if_pos cut] at result
    obtain ⟨rfl, rfl⟩ := Prod.mk.inj (Option.some.inj result)
    simp only [structSize, dataSizeSize] at cut
    -- The block is large enough for a second header, so it is cut.
    have room : size + 40 < block.size := by omega
    obtain ⟨process, newRep, same⟩ := split_represents rep room
    refine ⟨⟨block.addr, size, false⟩, _, _, ?_, rfl, newRep, by rw [process.start]; exact started,
      keepOthers same⟩
    rw [process.brk]
    exact Served.split front back block _ free room
  · rw [if_neg cut] at result
    obtain ⟨rfl, rfl⟩ := Prod.mk.inj (Option.some.inj result)
    simp only [structSize, dataSizeSize] at cut
    obtain ⟨process, newRep, same⟩ := reuse_represents rep
    -- The rest would be too small for a header, so the block is handed out whole.
    have tight : block.size ≤ size + 40 := by omega
    refine ⟨{ block with free := false }, _, _, ?_, rfl, newRep, by rw [process.start]; exact started,
      keepOthers same⟩
    rw [process.brk]
    exact Served.reuse front back block _ free large tight

/--
`malloc` serves a positive request: it returns the payload of the block that was served, and keeps
the payload of every live block.
-/
theorem malloc_spec (rep : Represents h blocks list) (positive : size ≠ 0) (fits : size < 2 ^ 64)
    (granted : Granted h size) {pointer : Nat} (result : malloc fuel h size = some (pointer, h')) :
    ∃ chosen served blocks' list', findFreeGetAddr fuel h size = some chosen ∧
      Served size chosen blocks h.brk served blocks' h'.brk ∧ pointer = served.payload ∧
      Represents h' blocks' list' ∧ h'.start ≠ null ∧
      ∀ block ∈ blocks, block.free = false → PayloadKept h h' block := by
  obtain ⟨repBegun, started, brk, limit, mem, head⟩ := begun_represents rep
  -- The first statement of `malloc` changes neither the bytes nor `head`.
  have search : findFreeGetAddr fuel (begun h) size = findFreeGetAddr fuel h size := by
    unfold findFreeGetAddr
    rw [head, findFreeLoop_congr mem]
  have keepsToo {other : Block} (kept : PayloadKept (begun h) h' other) : PayloadKept h h' other := by
    intro address above below
    rw [kept address above below, mem]
  cases searched : findFreeGetAddr fuel (begun h) size with
  | none => rw [malloc_unfinished positive searched] at result; cases result
  | some found =>
    rw [malloc_eq positive searched] at result
    rw [← search, searched]
    have limitBound := rep.limit
    rw [← brk]
    rcases findFreeGetAddr_spec repBegun searched with ⟨rfl, full⟩ |
      ⟨front, back, block, earlier, later, rfl, rfl, free, large, rfl, nonnull⟩
    · -- No free block is large enough, and the kernel grants the growth.
      have room := granted positive fuel (search ▸ searched)
      rw [← brk, ← limit] at room
      obtain ⟨place, newBrk, start, newRep, same⟩ := grow_represents repBegun started room
      have low := repBegun.low
      have above := repBegun.tiles.le
      rw [if_pos rfl, place, if_neg (by unfold null; omega)] at result
      obtain ⟨rfl, rfl⟩ := Prod.mk.inj (Option.some.inj result)
      refine ⟨null, _, _, list, rfl, by rw [newBrk]; exact Served.grow blocks _ full, ?_, newRep,
        by rw [start]; exact started, fun block member live => keepsToo ?_⟩
      · rw [wrap_of_lt (by simp only [structSize]; omega)]
      · exact repBegun.payload_kept member live (.inl (repBegun.bounds member).2) same
    · rw [if_neg nonnull] at result
      obtain ⟨served, blocks', list', serves, pointerIs, newRep, begins, kept⟩ :=
        found_spec repBegun started free large result
      exact ⟨block.addr, served, blocks', list', rfl, serves, pointerIs, newRep, begins,
        fun other member live => keepsToo (kept other member live)⟩

end SystemProgramming.Malloc
