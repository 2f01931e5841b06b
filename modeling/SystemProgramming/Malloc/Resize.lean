import SystemProgramming.Malloc.Allocate
import SystemProgramming.Malloc.Release

/-! `calloc` and `realloc` on a represented heap: writes in live payloads, trimming, and moving. -/

namespace SystemProgramming.Malloc

open Foundations

variable {h h' h₁ h₂ h₃ : Heap} {blocks blocks' front back : List Block} {list earlier later : List Nat}
  {block other served : Block} {base brk brk' chosen size fuel : Nat}

theorem PayloadKept.trans (first : PayloadKept h₁ h₂ block) (second : PayloadKept h₂ h₃ block) :
    PayloadKept h₁ h₃ block := fun address above below =>
  (second address above below).trans (first address above below)

/-- Writes inside the payload of a live block keep the blocks and the free list. -/
theorem Represents.write (rep : Represents h blocks list) (member : block ∈ blocks)
    (live : block.free = false) (process : SameProcess h h') (head : h'.head = h.head)
    (same : ∀ address, address < block.payload ∨ block.payload + block.size ≤ address →
      h'.mem address = h.mem address) : Represents h' blocks list := by
  -- Headers and tags of all blocks lie outside the payload that is written.
  have range : Untouched [] block.payload (block.payload + block.size) h h' :=
    fun address outside _ => same address outside
  have headers : ∀ {field : Field} {inside : Block}, inside ∈ blocks →
      h'.get field inside.addr = h.get field inside.addr := fun {field inside} second => by
    have apart := rep.apart second member
    simp only [Block.stop] at apart
    refine range.get_all ?_
    simp only [Block.payload]
    rcases apart with rfl | away <;> omega
  have tags : ∀ inside ∈ blocks, h'.tag inside.tagAddr = h.tag inside.tagAddr :=
    fun inside second => by
    have apart := rep.apart second member
    simp only [Block.stop] at apart
    refine range.tag ?_ (by simp)
    simp only [Block.payload, Block.tagAddr]
    rcases apart with rfl | away <;> omega
  have bounds := rep.bounds member
  have low := rep.low
  have sameBase := process.base
  refine { tiles := by rw [sameBase, process.brk]; exact rep.tiles
           stored := fun inside second => ⟨by rw [headers second, (rep.stored _ second).size],
             by rw [headers second, (rep.stored _ second).flag],
             by rw [tags _ second, (rep.stored _ second).tag]⟩
           links := ⟨rep.links.linked.congr (fun node inList => ?_) (fun node inList => ?_),
             head.trans rep.links.head⟩
           distinct := rep.distinct
           exactly := rep.exactly
           guard := by
             rw [sameBase, range.tag (.inl (by simp only [Block.payload]; omega)) (by simp)]
             exact rep.guard
           low := by rw [sameBase]; exact low
           high := by rw [process.brk, process.limit]; exact rep.high
           limit := by rw [process.limit]; exact rep.limit }
  · obtain ⟨owner, inside, rfl, _⟩ := rep.block_of_node inList
    exact headers inside
  · obtain ⟨owner, inside, rfl, _⟩ := rep.block_of_node inList
    exact headers inside

/-- Such writes reach no other payload. -/
theorem Represents.write_kept (rep : Represents h blocks list) (member : block ∈ blocks)
    (second : other ∈ blocks) (differs : other ≠ block)
    (same : ∀ address, address < block.payload ∨ block.payload + block.size ≤ address →
      h'.mem address = h.mem address) : PayloadKept h h' other := by
  intro address above below
  have apart := (rep.apart second member).resolve_left differs
  simp only [Block.stop, Block.payload] at apart above below
  exact same address (by simp only [Block.payload]; omega)

namespace Served

/-- The block that was served is a live block of the new heap, large enough for the request. -/
theorem result (served' : Served size chosen blocks brk served blocks' brk') :
    served ∈ blocks' ∧ served.free = false ∧ size ≤ served.size := by
  cases served' with
  | reuse front back block brk free fits tight => exact ⟨by simp, rfl, fits⟩
  | split front back block brk free room => exact ⟨by simp, rfl, Nat.le_refl _⟩
  | grow blocks brk full => exact ⟨by simp, rfl, Nat.le_refl _⟩

/-- Serving a request keeps every live block, and adds only the block that is served. -/
theorem live_iff (served' : Served size chosen blocks brk served blocks' brk')
    (live : other.free = false) : other ∈ blocks' ↔ other ∈ blocks ∨ other = served := by
  cases served' with
  | reuse front back block brk free fits tight =>
    have differs : other ≠ block := fun same => by rw [same, free] at live; cases live
    simp only [List.mem_append, List.mem_cons, differs, false_or]
    tauto
  | split front back block brk free room =>
    have differs : other ≠ block := fun same => by rw [same, free] at live; cases live
    have notRest : other ≠ ⟨block.addr + 40 + size, block.size - size - 40, true⟩ :=
      fun same => by rw [same] at live; cases live
    simp only [List.mem_append, List.mem_cons, differs, notRest, false_or]
    tauto
  | grow blocks brk full => simp

/-- The block that is served was not live before. -/
theorem fresh (served' : Served size chosen blocks brk served blocks' brk')
    (tiles : Tiles Block.addr Block.stop base blocks brk) (member : other ∈ blocks)
    (live : other.free = false) : other.addr ≠ served.addr := by
  cases served' with
  | reuse front back block brk free fits tight =>
    intro same
    have equal : other = block := tiles.eq_of_low_eq member (by simp) same
    rw [equal, free] at live
    cases live
  | split front back block brk free room =>
    intro same
    have equal : other = block := tiles.eq_of_low_eq member (by simp) same
    rw [equal, free] at live
    cases live
  | grow blocks brk full =>
    -- The new block lies at the old break, above every old block.
    have bounds := tiles.bounds member
    exact Nat.ne_of_lt (by show other.addr < brk; omega)

end Served

namespace Trimmed

variable {kept : Block}

/-- The trimmed block is a live block of the new heap, large enough, at the same place. -/
theorem result (trimmed : Trimmed size block kept blocks blocks') (member : block ∈ blocks)
    (live : block.free = false) (fits : size ≤ block.size) :
    kept ∈ blocks' ∧ kept.free = false ∧ size ≤ kept.size ∧ kept.addr = block.addr ∧
      kept.size ≤ block.size := by
  cases trimmed with
  | keep _ small => exact ⟨member, live, fits, rfl, Nat.le_refl _⟩
  | cut front back large room => exact ⟨by simp, rfl, Nat.le_refl _, rfl, fits⟩

/-- Trimming a block changes no other live block. -/
theorem live_iff (trimmed : Trimmed size block kept blocks blocks') (member : block ∈ blocks)
    (distinct : blocks.Nodup) (live : other.free = false) :
    other ∈ blocks' ↔ (other ∈ blocks ∧ other ≠ block) ∨ other = kept := by
  cases trimmed with
  | keep _ small => grind
  | cut front back large room =>
    have notRest : other ≠ ⟨block.addr + 40 + size, block.size - size - 40, true⟩ :=
      fun same => by rw [same] at live; cases live
    grind

end Trimmed

namespace Released

/-- Releasing a block removes it from the live blocks and adds none. -/
theorem live_iff (released : Released brk block blocks blocks') (distinct : blocks.Nodup)
    (live : other.free = false) : other ∈ blocks' ↔ other ∈ blocks ∧ other ≠ block := by
  -- Whatever is joined is free, so no other live block takes part.
  have notFree : ∀ {owner : Block}, owner.free = true → other ≠ owner := fun free same => by
    rw [same, free] at live
    cases live
  cases released with
  | alone front back before after =>
    have merged := @notFree { block with free := true } rfl
    grind
  | withAfter front back next before after =>
    have merged := @notFree ⟨block.addr, block.size + next.size + 40, true⟩ rfl
    have gone := notFree after.1
    grind
  | withBefore front back prior before after =>
    have merged := @notFree ⟨prior.addr, prior.size + block.size + 40, true⟩ rfl
    have gone := notFree before
    grind
  | both front back prior next before after =>
    have merged := @notFree ⟨prior.addr, prior.size + block.size + next.size + 80, true⟩ rfl
    have gone := notFree before
    have next := notFree after.1
    grind

end Released

/-- `calloc` serves the product of its arguments and clears it. -/
theorem calloc_spec {num : Nat} (rep : Represents h blocks list) (positive : num * size ≠ 0)
    (fits : num * size < 2 ^ 64) (granted : Granted h (num * size)) {pointer : Nat}
    (result : calloc fuel h num size = some (pointer, h')) :
    ∃ chosen served blocks' list', findFreeGetAddr fuel h (num * size) = some chosen ∧
      Served (num * size) chosen blocks h.brk served blocks' h'.brk ∧ pointer = served.payload ∧
      Represents h' blocks' list' ∧ h'.start ≠ null ∧
      (∀ block ∈ blocks, block.free = false → PayloadKept h h' block) ∧
      ∀ address, pointer ≤ address → address < pointer + num * size → h'.mem address = 0 := by
  unfold calloc at result
  rw [wrap_of_lt fits] at result
  cases allocated : malloc fuel h (num * size) with
  | none => rw [allocated] at result; cases result
  | some pair =>
    obtain ⟨place, g⟩ := pair
    obtain ⟨chosen, served, blocks', list', searched, serves, rfl, newRep, started, kept⟩ :=
      malloc_spec rep positive fits granted allocated
    obtain ⟨inside, live, large⟩ := serves.result
    have bounds := newRep.bounds inside
    have nonnull : served.payload ≠ null := by
      unfold null
      simp only [Block.payload]
      omega
    rw [allocated] at result
    simp only [if_neg nonnull] at result
    obtain ⟨rfl, rfl⟩ := Prod.mk.inj (Option.some.inj result)
    -- The bytes that are cleared lie in the payload of the block that was just served.
    have outside : ∀ address, address < served.payload ∨ served.payload + served.size ≤ address →
        g.mem.fill served.payload (num * size) 0 address = g.mem address := fun address away =>
      Memory.fill_of_outside (by omega)
    refine ⟨chosen, served, blocks', list', searched, serves, rfl,
      newRep.write inside live ⟨rfl, rfl, rfl, rfl⟩ rfl outside, started, fun block member free => ?_,
      fun address above below => Memory.fill_of_inside above below⟩
    -- The old live block is still there, and it is not the one that was served.
    have remains : block ∈ blocks' := (serves.live_iff free).mpr (.inl member)
    have differs : block ≠ served := fun same => serves.fresh rep.tiles member free (by rw [same])
    exact (kept block member free).trans (newRep.write_kept inside remains differs outside)

/-- The two headers and the two tags of a trimmed block, before the list is edited. -/
def trimmed (h : Heap) (cur newSize rest : Nat) : Heap :=
  (((h.set .size (cur + 40 + newSize) rest).set .size cur newSize).setTag (cur + 32 + newSize)
    newSize).setTag (cur + 40 + newSize + 32 + rest) rest

/-- Trimming a large block writes both parts, links the second one, and sets both flags. -/
theorem splitGetAddrForReduction_eq {cur newSize total : Nat} (sizeIs : h.get .size cur = total)
    (large : reductionLimit < total) (room : newSize + 40 < total)
    (bound : cur + 40 + total ≤ 2 ^ 63) :
    splitGetAddrForReduction h cur newSize =
      (cur, (((linkAtHead (trimmed h cur newSize (total - newSize - 40)) (cur + 40 + newSize)).set
        .free (cur + 40 + newSize) 1).set .free cur 0)) := by
  have place := secondHeader_eq (show cur + 40 + newSize < 2 ^ 64 by omega)
  have difference := remainder_eq room (by omega)
  have cut : wrapSub total newSize > structSize + dataSizeSize := by
    rw [wrapSub_of_le (by omega) (by omega)]
    simp only [structSize, dataSizeSize]
    omega
  have away : Apart (cur + 40 + newSize) cur := .inr (.inr (by omega))
  -- The new size of the first part lies in another header than that of the second one.
  have readRest : ((((h.set .size (cur + 40 + newSize) (total - newSize - 40)).set .size cur
      newSize).setTag (cur + 32 + newSize) newSize)).get .size (cur + 40 + newSize) =
        total - newSize - 40 := by
    rw [Heap.get_setTag (by omega), Heap.get_set_other away (.inr (by omega)), Heap.get_set_same]
    exact Nat.mod_eq_of_lt (by simp only [Field.width]; omega)
  have firstTag : wrap (cur + structSize + newSize) = cur + 32 + newSize :=
    wrap_of_lt (by simp only [structSize]; omega)
  have secondTag : wrap (cur + 40 + newSize + structSize + (total - newSize - 40)) =
      cur + 40 + newSize + 32 + (total - newSize - 40) :=
    wrap_of_lt (by simp only [structSize]; omega)
  simp only [splitGetAddrForReduction, Heap.size, sizeIs, if_neg (Nat.not_le.mpr large), if_pos cut,
    place, difference, firstTag, readRest, secondTag, trimmed]

/-- What is known of a trimmed block before its second part is linked. -/
structure TrimReady (h g : Heap) (cur newSize rest : Nat) (list : List Nat) : Prop where
  process : SameProcess h g
  links : FreeLinks g list
  size : g.get .size cur = newSize
  tag : g.tag (cur + 32 + newSize) = newSize
  restSize : g.get .size (cur + 40 + newSize) = rest
  restTag : g.tag (cur + 40 + newSize + 32 + rest) = rest
  kept : ∀ touched, Untouched touched cur (cur + 80 + newSize + rest) h g
  payload : PayloadKept h g ⟨cur, newSize, false⟩

/-- Trimming a block that no node of the list touches. -/
theorem trimmed_ready {cur newSize rest : Nat} (links : FreeLinks h list)
    (outside : ∀ other ∈ list, other + 40 ≤ cur ∨ cur + 80 + newSize + rest ≤ other)
    (fitsNew : newSize < 2 ^ 64) (fitsRest : rest < 2 ^ 64) :
    TrimReady h (trimmed h cur newSize rest) cur newSize rest list := by
  have apart : ∀ target, target = cur ∨ target = cur + 40 + newSize →
      ∀ other ∈ list, Apart other target := fun target which other member => by
    have := outside other member
    unfold Apart
    omega
  have tags : ∀ address, address = cur + 32 + newSize ∨ address = cur + 40 + newSize + 32 + rest →
      ∀ other ∈ list, address + 8 ≤ other ∨ other + 32 ≤ address := fun address place other member =>
    by have := outside other member; omega
  have away : Apart (cur + 40 + newSize) cur := .inr (.inr (by omega))
  unfold trimmed
  refine ⟨⟨rfl, rfl, rfl, rfl⟩, ?_, ?_, ?_, ?_, Heap.tag_setTag_same fitsRest, fun touched => ?_,
    fun address above below => ?_⟩
  · -- None of the four writes is a link of the list.
    exact (((links.set (apart _ (.inr rfl)) (.inl rfl)).set (apart _ (.inl rfl)) (.inl rfl)).setTag
      (tags _ (.inl rfl))).setTag (tags _ (.inr rfl))
  · rw [Heap.get_setTag (by omega), Heap.get_setTag (by omega), Heap.get_set_same]
    exact Nat.mod_eq_of_lt fitsNew
  · rw [Heap.tag_setTag_other (by omega), Heap.tag_setTag_same fitsNew]
  · rw [Heap.get_setTag (by omega), Heap.get_setTag (by omega),
      Heap.get_set_other away (.inr (by omega)), Heap.get_set_same]
    exact Nat.mod_eq_of_lt fitsRest
  · exact (((untouched_set (by omega) (by omega)).trans (untouched_set (by omega) (by omega))).trans
      (untouched_setTag (by omega) (by omega))).trans (untouched_setTag (by omega) (by omega))
  · -- All four writes lie in front of the shortened payload or behind it.
    simp only [Block.payload] at above below
    rw [Heap.mem_setTag (by omega), Heap.mem_setTag (by omega),
      Heap.mem_set (by simp only [Field.offset, Field.width]; omega),
      Heap.mem_set (by simp only [Field.offset, Field.width]; omega)]

/-- Finishing the trim: the second part is linked in front of the list, and both flags are set. -/
theorem TrimReady.finish {g : Heap} {cur newSize rest : Nat}
    (ready : TrimReady h g cur newSize rest list) (nodes : Nodes ((cur + 40 + newSize) :: list))
    (outside : ∀ other ∈ list, other + 40 ≤ cur ∨ cur + 80 + newSize + rest ≤ other) (g' : Heap)
    (done : g' = ((linkAtHead g (cur + 40 + newSize)).set .free (cur + 40 + newSize) 1).set
      .free cur 0) :
    SameProcess h g' ∧ FreeLinks g' ((cur + 40 + newSize) :: list) ∧ Stored g' ⟨cur, newSize, false⟩ ∧
      Stored g' ⟨cur + 40 + newSize, rest, true⟩ ∧
      Untouched list cur (cur + 80 + newSize + rest) h g' ∧
      PayloadKept h g' ⟨cur, newSize, false⟩ := by
  subst done
  obtain ⟨process, links, linked⟩ := linkAtHead_spec nodes ready.links
  have places : ∀ other ∈ (cur + 40 + newSize) :: list,
      other = cur + 40 + newSize ∨ other + 40 ≤ cur ∨ cur + 80 + newSize + rest ≤ other :=
    fun other member => (List.mem_cons.mp member).imp_right (outside other)
  have away : Apart cur (cur + 40 + newSize) := .inr (.inl (by omega))
  have curApart : ∀ other ∈ (cur + 40 + newSize) :: list, Apart other cur := fun other member => by
    have := places other member
    unfold Apart
    omega
  have restApart : ∀ other ∈ (cur + 40 + newSize) :: list, Apart other (cur + 40 + newSize) :=
    fun other member => by
    have := places other member
    unfold Apart
    omega
  refine ⟨((ready.process.trans process).trans sameProcess_set).trans sameProcess_set,
    (links.set restApart (.inr (.inl rfl))).set curApart (.inr (.inl rfl)), .of_fields ?_ ?_ ?_,
    .of_fields ?_ ?_ ?_, ?_, fun address above below => ?_⟩
  · rw [Heap.get_set_other (.inl rfl) (.inl (by decide)), Heap.get_set_other away (.inl (by decide)),
      (linked 0 0).get (.inr (Nat.zero_le _)) (.inl rfl) (fun link member =>
        (curApart link member).symm), ready.size]
  · exact Heap.get_set_same _
  · rw [Heap.tag_set (by omega), Heap.tag_set (by omega), (linked 0 0).tag (.inr (Nat.zero_le _))
      (fun link member => by have := places link member; omega), ready.tag]
  · rw [Heap.get_set_other away.symm (.inl (by decide)),
      Heap.get_set_other (.inl rfl) (.inl (by decide)),
      (linked 0 0).get (.inr (Nat.zero_le _)) (.inl rfl) (fun link member =>
        (restApart link member).symm), ready.restSize]
  · rw [Heap.get_set_other away.symm (.inr (by omega)), Heap.get_set_same]
    rfl
  · rw [Heap.tag_set (by omega), Heap.tag_set (by omega), (linked 0 0).tag (.inr (Nat.zero_le _))
      (fun link member => by have := places link member; omega), ready.restTag]
  · exact (((ready.kept list).trans ((linked cur (cur + 80 + newSize + rest)).mono
      (fun node member => (List.mem_cons.mp member).symm.imp_right fun same => by omega)
      (.inl (by omega)) (.inl (by omega)))).trans (untouched_set (by omega) (by omega))).trans
      (untouched_set (by omega) (by omega))
  · -- The links of the second part and both flags lie outside the shortened payload.
    have before := ready.payload address above below
    simp only [Block.payload] at above below
    rw [Heap.mem_set (by simp only [Field.offset, Field.width]; omega),
      Heap.mem_set (by simp only [Field.offset, Field.width]; omega),
      linked 0 0 address (.inr (Nat.zero_le _)) (fun link member => by
        have := places link member
        omega), before]

/-- Cutting a live block: the first part keeps its bytes and the rest becomes a free block. -/
theorem cut_represents {newSize : Nat} (rep : Represents h (front ++ block :: back) list)
    (live : block.free = false) (large : reductionLimit < block.size)
    (room : newSize + 40 < block.size) :
    ∃ g, splitGetAddrForReduction h block.addr newSize = (block.addr, g) ∧ SameProcess h g ∧
      Represents g (front ++ (⟨block.addr, newSize, false⟩ ::
          ⟨block.addr + 40 + newSize, block.size - newSize - 40, true⟩ :: back))
        ((block.addr + 40 + newSize) :: list) ∧
      Untouched list block.addr block.stop h g ∧
      PayloadKept h g ⟨block.addr, newSize, false⟩ := by
  have member : block ∈ front ++ block :: back := by simp
  have bounds := rep.bounds member
  have low := rep.low
  have high := rep.high
  have limit := rep.limit
  have absent := rep.live_outside member live
  simp only [Block.stop] at bounds
  rw [splitGetAddrForReduction_eq (rep.stored block member).size large room (by omega)]
  refine ⟨_, rfl, ?_⟩
  have whole : block.addr + 80 + newSize + (block.size - newSize - 40) = block.stop := by
    simp only [Block.stop]
    omega
  generalize block.size - newSize - 40 = rest at whole ⊢
  -- A live block is no node, so all nodes lie on one side of it.
  have outside : ∀ other ∈ list,
      other + 40 ≤ block.addr ∨ block.addr + 80 + newSize + rest ≤ other := fun other inList => by
    have place := rep.node_outside inList member
    have : other ≠ block.addr := fun same => absent (same ▸ inList)
    omega
  have fresh : block.addr + 40 + newSize ∉ list := fun inList => by
    have := outside _ inList
    omega
  simp only [Block.stop] at whole
  have nodes := rep.nodes.cons (show 32 ≤ block.addr + 40 + newSize by omega) (by omega) fresh
    fun other inList => by
      have := outside other inList
      unfold Apart
      omega
  obtain ⟨process, links, first, second, same, payload⟩ :=
    (trimmed_ready rep.links outside (by omega) (by omega)).finish nodes outside _ rfl
  rw [whole] at same
  refine ⟨process, ?_, same, payload⟩
  have becomes : Tiles Block.addr Block.stop block.addr
      [⟨block.addr, newSize, false⟩, ⟨block.addr + 40 + newSize, rest, true⟩] block.stop := by
    simp only [Tiles, Block.stop, true_and]
    omega
  -- The block is exchanged for its two parts, of which the second one is free.
  refine @Represents.exchange _ _ front back _ _ _ _ [block]
    [⟨block.addr, newSize, false⟩, ⟨block.addr + 40 + newSize, rest, true⟩] rep process (by simp)
    (tiles_single block) becomes same (by grind) links nodes.distinct fun node => ?_
  simp only [List.mem_cons, List.not_mem_nil, or_false, exists_eq_or_imp, exists_eq_left, forall_eq,
    Bool.false_eq_true, and_false, and_true, false_or]
  grind

/-- A payload pointer leads back to its header. -/
theorem Represents.header_of_payload (rep : Represents h blocks list) (member : block ∈ blocks) :
    wrapSub block.payload structSize = block.addr ∧ wrap (block.addr + structSize) = block.payload ∧
      block.payload ≠ null := by
  have bounds := rep.bounds member
  have high := rep.high
  have limit := rep.limit
  simp only [Block.stop] at bounds
  refine ⟨?_, wrap_of_lt (by simp only [structSize]; omega), ?_⟩
  · simp only [Block.payload, structSize]
    rw [wrapSub_of_le (by omega) (by omega)]
    omega
  · unfold null
    simp only [Block.payload]
    omega

/-- Shrinking in place trims the block and keeps the bytes that still belong to it. -/
theorem reduceSize_spec (rep : Represents h blocks list) (member : block ∈ blocks)
    (live : block.free = false) (fits : size ≤ block.size) :
    (reduceSize h block.payload size).1 = block.payload ∧
      SameProcess h (reduceSize h block.payload size).2 ∧
      ∃ kept blocks' list', Trimmed size block kept blocks blocks' ∧
        Represents (reduceSize h block.payload size).2 blocks' list' ∧
        (∀ other ∈ blocks, other.free = false → other ≠ block →
          PayloadKept h (reduceSize h block.payload size).2 other) ∧
        PayloadKept h (reduceSize h block.payload size).2 kept := by
  obtain ⟨header, payload, nonnull⟩ := rep.header_of_payload member
  have stored := (rep.stored block member).size
  have bounds := rep.bounds member
  have high := rep.high
  have limit := rep.limit
  simp only [Block.stop] at bounds
  have whole : reduceSize h block.payload size =
      (wrap ((splitGetAddrForReduction h block.addr size).1 + structSize),
        (splitGetAddrForReduction h block.addr size).2) := by
    unfold reduceSize
    rw [header]
  rw [whole]
  by_cases large : reductionLimit < block.size
  · by_cases room : size + 40 < block.size
    · obtain ⟨front, back, rfl⟩ := List.append_of_mem member
      obtain ⟨g, cut, process, newRep, same, kept⟩ := cut_represents rep live large room
      rw [cut]
      refine ⟨payload, process, _, _, _, .cut front back large room, newRep,
        fun other second otherLive differs => rep.payload_kept second otherLive ?_ same, kept⟩
      exact (rep.apart second member).resolve_left differs
    · -- A second header would not fit.
      have tight : ¬ wrapSub block.size size > structSize + dataSizeSize := by
        rw [wrapSub_of_le (by omega) fits]
        simp only [structSize, dataSizeSize]
        omega
      -- The source leaves the block as it is.
      have unchanged : splitGetAddrForReduction h block.addr size = (block.addr, h) := by
        simp only [splitGetAddrForReduction, Heap.size, stored, if_neg (Nat.not_le.mpr large),
          if_neg tight]
      rw [unchanged]
      exact ⟨payload, .refl, _, _, _, .keep blocks (.inr (Nat.not_lt.mp room)), rep,
        fun _ _ _ _ _ _ _ => rfl, fun _ _ _ => rfl⟩
  · have unchanged : splitGetAddrForReduction h block.addr size = (block.addr, h) := by
      simp only [splitGetAddrForReduction, Heap.size, stored, if_pos (Nat.not_lt.mp large)]
    rw [unchanged]
    exact ⟨payload, .refl, _, _, _, .keep blocks (.inl (Nat.not_lt.mp large)), rep,
      fun _ _ _ _ _ _ _ => rfl, fun _ _ _ => rfl⟩

/-- Growing serves a new block, copies the old payload into it, and releases the old block. -/
theorem increaseSize_spec (rep : Represents h blocks list) (member : block ∈ blocks)
    (live : block.free = false) (larger : block.size < size) (fits : size < 2 ^ 64)
    (granted : Granted h size) {pointer : Nat}
    (result : increaseSize fuel h block.payload block.size size = some (pointer, h')) :
    ∃ chosen served middle blocks' list', findFreeGetAddr fuel h size = some chosen ∧
      Served size chosen blocks h.brk served middle h'.brk ∧
      Released h'.brk block middle blocks' ∧ pointer = served.payload ∧
      Represents h' blocks' list' ∧ h'.start ≠ null ∧
      (∀ other ∈ blocks, other.free = false → other ≠ block → PayloadKept h h' other) ∧
      ∀ offset, offset < block.size → h'.mem (pointer + offset) = h.mem (block.payload + offset) := by
  unfold increaseSize at result
  cases allocated : malloc fuel h size with
  | none => rw [allocated] at result; cases result
  | some pair =>
    obtain ⟨place, g⟩ := pair
    obtain ⟨chosen, served, middle, list₁, searched, serves, rfl, newRep, started, kept⟩ :=
      malloc_spec rep (by omega) fits granted allocated
    obtain ⟨inside, servedLive, large⟩ := serves.result
    obtain ⟨_, _, nonnull⟩ := newRep.header_of_payload inside
    rw [allocated] at result
    simp only [if_neg nonnull] at result
    obtain ⟨rfl, rfl⟩ := Prod.mk.inj (Option.some.inj result)
    -- The copy stays in the payload of the new block, which is longer than the old one.
    have outside : ∀ address, address < served.payload ∨ served.payload + served.size ≤ address →
        g.mem.copy served.payload block.payload block.size address = g.mem address :=
      fun address away => Memory.copy_of_outside (by omega)
    have copied : Represents { g with
        mem := g.mem.copy served.payload block.payload block.size } middle list₁ :=
      newRep.write inside servedLive ⟨rfl, rfl, rfl, rfl⟩ rfl outside
    -- Every live block is still live beside the new one.
    have remains : ∀ other ∈ blocks, other.free = false → other ∈ middle ∧ other ≠ served :=
      fun other second otherLive => ⟨(serves.live_iff otherLive).mpr (.inl second),
        fun same => serves.fresh rep.tiles second otherLive (by rw [same])⟩
    obtain ⟨blockRemains, blockDiffers⟩ := remains block member live
    -- The old block is released in the heap that already holds the copy.
    obtain ⟨blocks', list', released, process, finalRep, keptFree⟩ :=
      free_spec copied blockRemains live
    refine ⟨chosen, served, middle, blocks', list', searched, ?_, ?_, rfl, finalRep, ?_,
      fun other second otherLive differs => ?_, fun offset below => ?_⟩
    · rw [process.brk]
      exact serves
    · rw [process.brk]
      exact released
    · rw [process.start]
      exact started
    · obtain ⟨otherRemains, otherDiffers⟩ := remains other second otherLive
      exact ((kept other second otherLive).trans
        (newRep.write_kept inside otherRemains otherDiffers outside)).trans
          (keptFree other otherRemains otherLive differs)
    · -- Releasing the old block keeps the new payload, which holds the bytes that were copied.
      have freed := keptFree served inside servedLive (Ne.symm blockDiffers)
        (served.payload + offset) (by omega) (by omega)
      have old := kept block member live (block.payload + offset) (by omega) (by omega)
      rw [freed, ← old]
      simp only [Memory.copy]
      rw [if_pos (by omega), Nat.add_sub_cancel_left]

end SystemProgramming.Malloc
