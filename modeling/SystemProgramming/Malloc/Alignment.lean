import SystemProgramming.Malloc.Coalescing

/-! Which requests keep headers, tags and pointers aligned; the allocator rounds no size itself. -/

namespace SystemProgramming.Malloc

open Foundations

variable {h : Heap} {client : Client} {trace : List (Transition Client Event)}
  {blocks blocks' front back middle : List Block} {list : List Nat} {block served kept : Block}
  {size chosen base brk brk' given requested : Nat}

/-- The words that the allocator keeps in a block are aligned: those of the header, and the tag. -/
def Block.Aligned (block : Block) : Prop := 8 ∣ block.addr ∧ 8 ∣ block.tagAddr

/-- The words of all blocks are aligned. -/
def AllAligned (blocks : List Block) : Prop := ∀ block ∈ blocks, block.Aligned

/-- An aligned block has a size and an end that are multiples of eight. -/
theorem Block.Aligned.multiples (aligned : block.Aligned) : 8 ∣ block.size ∧ 8 ∣ block.stop := by
  obtain ⟨header, tag⟩ := aligned
  simp only [Block.tagAddr, Block.stop] at *
  omega

/-- A heap of aligned blocks ends at an aligned break. -/
theorem AllAligned.ends (aligned : AllAligned blocks)
    (tiles : Tiles Block.addr Block.stop base blocks brk) (empty : blocks = [] → 8 ∣ brk) :
    8 ∣ brk := by
  cases blocks using List.reverseRecOn with
  | nil => exact empty rfl
  | append_singleton front last =>
    have tail := tiles.next
    rw [← show last.stop = brk from tail]
    exact (aligned last (by simp)).multiples.2

/-- The search leads to a new header or tag: the heap grows, or the chosen block is cut. -/
def Placed (size chosen : Nat) (blocks : List Block) : Prop :=
  chosen = null ∨ ∃ block ∈ blocks, block.addr = chosen ∧ size + 40 < block.size

/-- A block for which something was placed has exactly the size that was asked for. -/
theorem Served.size_of_placed (serves : Served size chosen blocks brk served blocks' brk')
    (tiles : Tiles Block.addr Block.stop base blocks brk) (low : 0 < base)
    (placed : Placed size chosen blocks) : served.size = size := by
  cases serves with
  | reuse front back owner brk free fits tight =>
    have range := tiles.bounds (show owner ∈ front ++ owner :: back by simp)
    rcases placed with absent | ⟨block, member, place, room⟩
    · unfold null at absent
      omega
    · -- The chosen block leaves no room, so nothing would have been placed.
      have equal : block = owner := tiles.eq_of_low_eq member (by simp) place
      rw [equal] at room
      omega
  | split => rfl
  | grow => rfl

/-- Serving keeps everything aligned when the size of what it places is a multiple of eight. -/
theorem Served.aligned (serves : Served size chosen blocks brk served blocks' brk')
    (tiles : Tiles Block.addr Block.stop base blocks brk) (aligned : AllAligned blocks)
    (empty : blocks = [] → 8 ∣ brk) (round : Placed size chosen blocks → 8 ∣ size) :
    AllAligned blocks' := by
  cases serves with
  | reuse front back owner brk free fits tight =>
    -- A block that is handed out whole keeps its header and its tag.
    have ownerAligned := aligned owner (by simp)
    intro block member
    have cases : block = { owner with free := false } ∨ block ∈ front ++ owner :: back := by grind
    rcases cases with rfl | old
    · exact ownerAligned
    · exact aligned block old
  | split front back owner brk free room =>
    have ownerAligned := aligned owner (by simp)
    have multiple := round (.inr ⟨owner, by simp, rfl, room⟩)
    obtain ⟨header, tag⟩ := ownerAligned
    intro block member
    have cases : block = ⟨owner.addr, size, false⟩ ∨
        block = ⟨owner.addr + 40 + size, owner.size - size - 40, true⟩ ∨
        block ∈ front ++ owner :: back := by grind
    -- The second part ends at the tag of the old block.
    rcases cases with rfl | rfl | old
    · simp only [Block.Aligned, Block.tagAddr] at header tag ⊢
      omega
    · simp only [Block.Aligned, Block.tagAddr] at header tag ⊢
      omega
    · exact aligned block old
  | grow blocks brk full =>
    have multiple := round (.inl rfl)
    -- The new header lies at the old break.
    have last := aligned.ends tiles empty
    intro block member
    rcases List.mem_append.mp member with old | new
    · exact aligned block old
    · rw [List.mem_singleton.mp new]
      simp only [Block.Aligned, Block.tagAddr]
      omega

/-- Joining blocks places nothing new: the outer header and the outer tag stay where they are. -/
theorem Released.aligned (released : Released brk block blocks blocks')
    (tiles : Tiles Block.addr Block.stop base blocks brk) (aligned : AllAligned blocks) :
    AllAligned blocks' := by
  cases released with
  | alone front back before after =>
    have mine := aligned block (by simp)
    intro other member
    have cases : other = { block with free := true } ∨ other ∈ front ++ block :: back := by grind
    rcases cases with rfl | old
    · exact mine
    · exact aligned other old
  | withAfter front back next before after =>
    have mine := aligned block (by simp)
    have theirs := aligned next (by simp)
    intro other member
    have cases : other = ⟨block.addr, block.size + next.size + 40, true⟩ ∨
        other ∈ front ++ block :: next :: back := by grind
    rcases cases with rfl | old
    · -- The joined block begins where the first one did, and has its tag where the second one did.
      simp only [Block.Aligned, Block.tagAddr] at mine theirs ⊢
      omega
    · exact aligned other old
  | withBefore front back prior before after =>
    have mine := aligned block (by simp)
    have theirs := aligned prior (by simp)
    intro other member
    have cases : other = ⟨prior.addr, prior.size + block.size + 40, true⟩ ∨
        other ∈ front ++ prior :: block :: back := by grind
    rcases cases with rfl | old
    · simp only [Block.Aligned, Block.tagAddr] at mine theirs ⊢
      omega
    · exact aligned other old
  | both front back prior next before after =>
    have mine := aligned block (by simp)
    have theirs := aligned prior (by simp)
    have last := aligned next (by simp)
    intro other member
    have cases : other = ⟨prior.addr, prior.size + block.size + next.size + 80, true⟩ ∨
        other ∈ front ++ prior :: block :: next :: back := by grind
    rcases cases with rfl | old
    · simp only [Block.Aligned, Block.tagAddr] at mine theirs last ⊢
      omega
    · exact aligned other old

/-- Trimming keeps everything aligned exactly when a cut leaves a multiple of eight. -/
theorem Trimmed.aligned_iff (trimmed : Trimmed size block kept blocks blocks')
    (member : block ∈ blocks) (aligned : AllAligned blocks) :
    AllAligned blocks' ↔ (reductionLimit < block.size → size + 40 < block.size → 8 ∣ size) := by
  cases trimmed with
  | keep _ small => exact iff_of_true aligned fun large room => by omega
  | cut front back large room =>
    have mine := aligned block member
    constructor
    · intro after _ _
      -- The tag of the first part tells that the size is a multiple.
      obtain ⟨header, tag⟩ := after ⟨block.addr, size, false⟩ (by simp)
      simp only [Block.tagAddr] at header tag
      omega
    · intro round other inside
      have multiple := round large room
      have cases : other = ⟨block.addr, size, false⟩ ∨
          other = ⟨block.addr + 40 + size, block.size - size - 40, true⟩ ∨
          other ∈ front ++ block :: back := by grind
      rcases cases with rfl | rfl | old
      · simp only [Block.Aligned, Block.tagAddr] at mine ⊢
        omega
      · simp only [Block.Aligned, Block.tagAddr] at mine ⊢
        omega
      · exact aligned other old

/-- A request that leads to a new header or tag is a multiple of eight. -/
def RoundWhenPlaced (h : Heap) (size : Nat) : Prop :=
  ∀ fuel chosen, findFreeGetAddr fuel h size = some chosen →
    chosen = null ∨ size + 40 < h.size chosen → 8 ∣ size

/--
The condition under which a step places only aligned words: a request that grows the heap or cuts
a block, free or shrinking, is a multiple of eight.
-/
def RoundRequest (client : Client) (event : Event) : Prop :=
  (event.given = null → event.requested ≠ 0 → RoundWhenPlaced client.heap event.requested) ∧
  (event.given ≠ null → payloadSize client.heap event.given < event.requested →
    RoundWhenPlaced client.heap event.requested) ∧
  (event.given ≠ null → event.requested ≠ 0 →
    reductionLimit < payloadSize client.heap event.given →
    event.requested + 40 < payloadSize client.heap event.given → 8 ∣ event.requested)

/-- What the search finds tells whether something is placed. -/
theorem placed_iff {fuel : Nat} (rep : Represents h blocks list)
    (searched : findFreeGetAddr fuel h size = some chosen) :
    Placed size chosen blocks ↔ chosen = null ∨ size + 40 < h.size chosen := by
  -- The header of the chosen block tells its size.
  refine or_congr_right' fun nonnull => ?_
  rcases findFreeGetAddr_spec rep searched with ⟨absent, _⟩ |
    ⟨front, back, owner, _, _, rfl, _, _, _, rfl, _⟩
  · exact absurd absent nonnull
  · have inside : owner ∈ front ++ owner :: back := by simp
    rw [Heap.size, (rep.stored owner inside).size]
    constructor
    · intro placed
      obtain ⟨block, member, place, room⟩ := placed
      have equal : block = owner := rep.tiles.eq_of_low_eq member inside place
      rwa [equal] at room
    · exact fun room => ⟨owner, inside, rfl, room⟩

/-- The condition on the search is the condition on the node that it finds. -/
theorem roundWhenPlaced_iff {fuel : Nat} (rep : Represents h blocks list)
    (searched : findFreeGetAddr fuel h size = some chosen) :
    RoundWhenPlaced h size ↔ (Placed size chosen blocks → 8 ∣ size) := by
  rw [placed_iff rep searched]
  constructor
  · exact fun round => round fuel chosen searched
  · intro round other found again
    rw [findFreeGetAddr_unique rep again searched]
    exact round

/-- A served block that is aligned was asked for with a round size, where something was placed. -/
theorem Served.round_of_aligned (serves : Served size chosen blocks brk served blocks' brk')
    (tiles : Tiles Block.addr Block.stop base blocks brk) (low : 0 < base)
    (mine : served.Aligned) : Placed size chosen blocks → 8 ∣ size := by
  intro placed
  rw [← serves.size_of_placed tiles low placed]
  exact mine.multiples.1

/-- The effect of a step keeps everything aligned exactly when the step meets the condition. -/
theorem Effect.aligned_iff {event : Event} (consistent : Consistent client blocks list)
    (effect : Effect client.heap event.given event.requested blocks blocks' brk')
    (aligned : AllAligned blocks) (empty : blocks = [] → 8 ∣ client.heap.brk) :
    AllAligned blocks' ↔ RoundRequest client event := by
  have rep := consistent.rep
  have low : 0 < client.heap.base := Nat.lt_of_lt_of_le (by decide) rep.low
  unfold RoundRequest
  generalize event.given = given at effect ⊢
  generalize event.requested = requested at effect ⊢
  cases effect with
  | idle =>
    exact iff_of_true aligned ⟨fun _ positive => absurd rfl positive, fun nonnull => absurd rfl nonnull,
      fun nonnull => absurd rfl nonnull⟩
  | serve positive searched serves =>
    -- If the new block is aligned, its size is a multiple of eight.
    have served := serves.result.1
    simp only [positive, ne_eq, not_true_eq_false, not_false_eq_true, true_implies, false_implies,
      and_true, roundWhenPlaced_iff rep searched]
    exact ⟨fun after => serves.round_of_aligned rep.tiles low (after _ served),
      serves.aligned rep.tiles aligned empty⟩
  | @release block _ _ member live released =>
    have nonnull : block.payload ≠ null := Nat.succ_ne_zero _
    -- A release places nothing, so there is no condition on it.
    refine iff_of_true (released.aligned rep.tiles aligned) ?_
    simp only [nonnull, ne_eq, not_true_eq_false, false_implies, Nat.not_lt_zero, implies_true,
      and_true]
  | @trim _ block kept _ _ member live positive fits trimmed =>
    have nonnull : block.payload ≠ null := Nat.succ_ne_zero _
    rw [trimmed.aligned_iff member aligned]
    simp only [nonnull, positive, ne_eq, not_false_eq_true, true_implies, false_implies, true_and,
      payloadSize_eq rep member, Nat.not_lt.mpr fits]
  | @move _ chosen fuel _ block served _ middle _ member live larger searched serves released =>
    have nonnull : block.payload ≠ null := Nat.succ_ne_zero _
    have middleTiles := serves.tiles rep.tiles
    obtain ⟨inMiddle, servedLive, _⟩ := serves.result
    have differs : served ≠ block := fun same =>
      serves.fresh rep.tiles member live (by rw [same])
    have served' : served ∈ blocks' :=
      (released.live_iff middleTiles.nodup servedLive).mpr ⟨inMiddle, differs⟩
    -- A block that is too small for the request is not cut.
    have notCut : ¬ requested + 40 < block.size := by omega
    simp only [nonnull, larger, notCut, ne_eq, not_false_eq_true, true_implies, false_implies,
      implies_true, true_and, and_true, payloadSize_eq rep member, roundWhenPlaced_iff rep searched]
    -- The served block survives the release, so what it says about the request is still there.
    exact ⟨fun after => serves.round_of_aligned rep.tiles low (after _ served'), fun round =>
      released.aligned middleTiles (serves.aligned rep.tiles aligned empty round)⟩

/-- An empty heap after a step was an empty heap before, with the same break. -/
theorem Effect.empty (effect : Effect h given requested blocks blocks' brk') (none : blocks' = []) :
    blocks = [] ∧ brk' = h.brk := by
  cases effect with
  | idle => exact ⟨none, rfl⟩
  | serve _ _ serves =>
    have inside := serves.result.1
    rw [none] at inside
    cases inside
  | release _ _ released => cases released <;> simp at none
  | trim member _ _ _ trimmed =>
    cases trimmed with
    | keep => exact ⟨none, rfl⟩
    | cut => simp at none
  | move _ _ _ _ _ released => cases released <;> simp at none

/-- All words of the allocator in the heap are aligned. -/
def HeapAligned (h : Heap) : Prop := ∃ blocks, Layout h blocks ∧ AllAligned blocks

/-- The invariant of a run that started at an aligned break. -/
def AlignedStart (client : Client) : Prop :=
  ∃ blocks list, Consistent client blocks list ∧ (blocks = [] → 8 ∣ client.heap.brk)

/-- A step from an aligned start keeps it, and keeps all words aligned when it meets the condition. -/
theorem AlignedStart.step {before after : Client} {event : Event} (start : AlignedStart before)
    (step : Step before event after) : AlignedStart after ∧
      (HeapAligned before.heap → (HeapAligned after.heap ↔ RoundRequest before event)) := by
  obtain ⟨blocks, list, consistent, empty⟩ := start
  obtain ⟨blocks', list', next, effect, _⟩ := consistent.step step
  refine ⟨⟨blocks', list', next, fun none => ?_⟩, ?_⟩
  · obtain ⟨wasEmpty, same⟩ := effect.empty none
    rw [same]
    exact empty wasEmpty
  · intro good
    obtain ⟨known, layout, aligned⟩ := good
    -- The bytes fix the blocks, so the known layout is the one of the invariant.
    rw [layout.unique consistent.rep.toLayout] at aligned
    rw [← effect.aligned_iff consistent aligned empty]
    constructor
    · intro good
      obtain ⟨known, layout, aligned⟩ := good
      rwa [layout.unique next.rep.toLayout] at aligned
    · exact fun aligned => ⟨blocks', next.rep.toLayout, aligned⟩

/-- The pointers into an aligned heap are aligned. -/
theorem held_aligned (consistent : Consistent client blocks list)
    (aligned : HeapAligned client.heap) : ∀ pointer ∈ held client.live, 8 ∣ pointer := by
  intro pointer member
  obtain ⟨known, layout, all⟩ := aligned
  rw [layout.unique consistent.rep.toLayout] at all
  obtain ⟨block, inside, _, rfl⟩ := consistent.owns.block_of_held member
  have header := (all block inside).1
  simp only [Block.payload]
  omega

/--
In every run from an aligned start, all headers and tags are aligned exactly as long as every
step meets the condition, and then all pointers are aligned as well.
-/
theorem aligned_run_iff (fresh : Fresh h) (start : 16 ∣ h.brk)
    (run : Run Step ⟨h, []⟩ trace client) :
    ((∀ taken ∈ trace, HeapAligned taken.after.heap) ↔
      ∀ taken ∈ trace, RoundRequest taken.before taken.action) ∧
    ((∀ taken ∈ trace, RoundRequest taken.before taken.action) →
      HeapAligned client.heap ∧ ∀ pointer ∈ held client.live, 8 ∣ pointer) := by
  have empty : Owns [] [] := ⟨fun _ member => absurd member List.not_mem_nil,
    fun _ member => absurd member List.not_mem_nil, List.nodup_nil⟩
  have initial : AlignedStart ⟨h, []⟩ := ⟨[], [], ⟨fresh.represents, empty⟩, fun _ =>
    Nat.dvd_trans (by decide) start⟩
  have none : HeapAligned h := ⟨[], fresh.represents.toLayout, fun _ member => absurd member
    List.not_mem_nil⟩
  refine ⟨@Run.all_good_iff _ _ _ _ _ _ AlignedStart (fun state => HeapAligned state.heap)
    RoundRequest run initial (fun _ _ _ start step => (start.step step).1) none
    fun _ _ _ start aligned step => (start.step step).2 aligned, fun meets => ?_⟩
  have aligned : HeapAligned client.heap :=
    @Run.good_of_meets _ _ _ _ _ _ AlignedStart (fun state => HeapAligned state.heap) RoundRequest
      run initial (fun _ _ _ start step => (start.step step).1) none
      (fun _ _ _ start good step met => ((start.step step).2 good).mpr met) meets
  obtain ⟨blocks, list, consistent⟩ := consistent_of_run fresh run
  exact ⟨aligned, held_aligned consistent aligned⟩

/-- The sample asks for eight bytes at a time, so its heap stays aligned. -/
theorem aligned_run_sample : HeapAligned (free (free twoServed 4176) 4128) := by
  refine ((aligned_run_iff emptyProcess_fresh (by decide) sample_run).2 fun taken member => ?_).1
  have sizes : taken.action.requested = 8 ∨ taken.action.requested = 0 := by
    revert taken member
    simp [sampleTrace, Event.requested]
  -- All requests are for eight bytes or for none.
  have round : 8 ∣ taken.action.requested := by omega
  exact ⟨fun _ _ _ _ _ _ => round, fun _ _ _ _ _ _ => round, fun _ _ _ _ => round⟩

/-- A block of one byte, and a second one behind it. -/
def oneByteServed : Heap := heapAfter emptyProcess (malloc 1 emptyProcess 1)

def twoBytesServed : Heap := heapAfter oneByteServed (malloc 1 oneByteServed 1)

/-- After two requests of one byte, the second header and pointer lie at odd addresses. -/
theorem one_byte_not_aligned : 16 ∣ emptyProcess.brk ∧ ∃ trace client,
    Run Step ⟨emptyProcess, []⟩ trace client ∧ (4169, 1) ∈ client.live ∧
      ¬ HeapAligned client.heap := by
  refine ⟨by decide, [⟨⟨emptyProcess, []⟩, .malloc 1 4128, ⟨oneByteServed, [(4128, 1)]⟩⟩,
    ⟨⟨oneByteServed, [(4128, 1)]⟩, .malloc 1 4169, ⟨twoBytesServed, [(4169, 1), (4128, 1)]⟩⟩],
    ⟨twoBytesServed, [(4169, 1), (4128, 1)]⟩, ?_, by simp, ?_⟩
  · have first : Step ⟨emptyProcess, []⟩ (.malloc 1 4128) ⟨oneByteServed, [(4128, 1)]⟩ :=
      .malloc (by decide) (fun _ _ _ => by decide +kernel) (returns_heapAfter (by decide +kernel))
    have second : Step ⟨oneByteServed, [(4128, 1)]⟩ (.malloc 1 4169)
        ⟨twoBytesServed, [(4169, 1), (4128, 1)]⟩ :=
      .malloc (by decide) (fun _ _ _ => by decide +kernel) (returns_heapAfter (by decide +kernel))
    exact (Run.start.next first).next second
  · intro good
    obtain ⟨blocks, layout, aligned⟩ := good
    have actual : Layout twoBytesServed [⟨4096, 1, false⟩, ⟨4137, 1, false⟩] := by decide +kernel
    rw [layout.unique actual] at aligned
    -- The second header would be a multiple of eight.
    have header := (aligned ⟨4137, 1, false⟩ (by simp)).1
    revert header
    decide

end SystemProgramming.Malloc
