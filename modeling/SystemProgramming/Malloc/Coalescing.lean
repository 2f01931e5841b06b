import SystemProgramming.Malloc.Safety
import Mathlib.Data.List.Chain

/-! When adjacent free blocks are joined, and the steps after which they are not. -/

namespace SystemProgramming.Malloc

open Foundations

variable {h : Heap} {client : Client} {trace : List (Transition Client Event)}
  {blocks blocks' front back : List Block} {list : List Nat} {block served kept : Block}
  {size chosen base brk brk' given requested fuel fuel' found found' : Nat}

/-- No two neighbours are both free. -/
def Separated (blocks : List Block) : Prop :=
  blocks.IsChain fun block next => block.free = true → next.free = false

/-- Every free block behind the given one satisfies the condition; there is at most one. -/
def Behind (block : Block) (blocks : List Block) (Holds : Nat → Prop) : Prop :=
  ∀ next ∈ blocks, next.addr = block.stop → next.free = true → Holds next.addr

/-- The block behind is the next one of the list. -/
theorem behind_iff {Holds : Nat → Prop}
    (tiles : Tiles Block.addr Block.stop base (front ++ block :: back) brk) :
    Behind block (front ++ block :: back) Holds ↔
      ∀ next ∈ back.head?, next.free = true → Holds next.addr := by
  have tail := tiles.next
  constructor
  · intro behind next isNext free
    obtain ⟨rest, rfl⟩ := List.head?_eq_some_iff.mp isNext
    exact behind next (by simp) tail.1 free
  · intro holds next member place free
    have range := tiles.bounds (show block ∈ front ++ block :: back by simp)
    -- Only a block of the back can start where the given block ends.
    have inBack : next ∈ back := by
      rcases List.mem_append.mp member with isFront | rest
      · have := tiles.previous.bounds isFront
        omega
      · rcases List.mem_cons.mp rest with rfl | isBack
        · omega
        · exact isBack
    cases back with
    | nil => cases inBack
    | cons first back =>
      have same : next = first := tail.eq_of_low_eq inBack (by simp) (place.trans tail.1.symm)
      exact holds next (by rw [same]; rfl) free

/-- Serving a request never puts two free blocks next to each other. -/
theorem Served.separated (serves : Served size chosen blocks brk served blocks' brk')
    (separated : Separated blocks) : Separated blocks' := by
  unfold Separated at separated ⊢
  cases serves with
  | reuse front back block brk free fits tight =>
    rw [List.isChain_append, List.isChain_cons] at separated ⊢
    simp_all
  | split front back block brk free room =>
    rw [List.isChain_append, List.isChain_cons] at separated
    rw [List.isChain_append, List.isChain_cons, List.isChain_cons]
    simp_all
  | grow blocks brk full =>
    rw [List.isChain_append]
    simp_all

/-- Releasing a block keeps free blocks apart exactly when a free block behind it can be joined. -/
theorem Released.separated_iff (released : Released brk block blocks blocks')
    (tiles : Tiles Block.addr Block.stop base blocks brk) (separated : Separated blocks) :
    Separated blocks' ↔ Behind block blocks fun next => next + 1024 ≤ brk := by
  unfold Separated at separated ⊢
  cases released with
  | alone front back before after =>
    rw [behind_iff tiles]
    rw [List.isChain_append, List.isChain_cons] at separated ⊢
    simp only [Reaches, not_and] at after
    grind
  | withAfter front back next before after =>
    rw [behind_iff tiles]
    rw [List.isChain_append, List.isChain_cons, List.isChain_cons] at separated
    rw [List.isChain_append, List.isChain_cons]
    simp only [Reaches] at after
    grind
  -- What is behind the joined block is what was behind the freed one.
  | withBefore front back prior before after =>
    have whole : front ++ prior :: block :: back = (front ++ [prior]) ++ block :: back := by simp
    rw [whole] at tiles ⊢
    rw [behind_iff tiles]
    rw [List.isChain_append, List.isChain_cons, List.isChain_cons] at separated
    rw [List.isChain_append, List.isChain_cons]
    simp only [Reaches, not_and] at after
    grind
  | both front back prior next before after =>
    have whole : front ++ prior :: block :: next :: back =
        (front ++ [prior]) ++ block :: next :: back := by simp
    rw [whole] at tiles ⊢
    rw [behind_iff tiles]
    rw [List.isChain_append, List.isChain_cons, List.isChain_cons, List.isChain_cons] at separated
    rw [List.isChain_append, List.isChain_cons]
    simp only [Reaches] at after
    grind

/-- Trimming keeps free blocks apart exactly when no block is cut in front of a free one. -/
theorem Trimmed.separated_iff (trimmed : Trimmed size block kept blocks blocks')
    (tiles : Tiles Block.addr Block.stop base blocks brk) (separated : Separated blocks) :
    Separated blocks' ↔
      Behind block blocks fun _ => block.size ≤ reductionLimit ∨ block.size ≤ size + 40 := by
  cases trimmed with
  | keep _ small => exact iff_of_true separated fun _ _ _ _ => small
  | cut front back large room =>
    rw [behind_iff tiles]
    unfold Separated at separated ⊢
    rw [List.isChain_append, List.isChain_cons] at separated
    rw [List.isChain_append, List.isChain_cons, List.isChain_cons]
    have impossible : ¬ (block.size ≤ reductionLimit ∨ block.size ≤ size + 40) := by omega
    simp only [impossible, imp_false]
    grind

/--
Serving changes what is behind a live block only by handing out the block behind it or by moving
the break.
-/
theorem Served.behind_iff (serves : Served size chosen blocks brk served blocks' brk')
    (tiles : Tiles Block.addr Block.stop base blocks brk) (low : 0 < base) (member : block ∈ blocks)
    (live : block.free = false) :
    (Behind block blocks' fun next => next + 1024 ≤ brk') ↔ Behind block blocks fun next =>
      chosen = next ∨ next + 1024 ≤ if chosen = null then brk + (40 + size) else brk := by
  unfold Behind
  cases serves with
  | reuse front back owner brk free fits tight =>
    have range := tiles.bounds (show owner ∈ front ++ owner :: back by simp)
    rw [if_neg (show owner.addr ≠ null by unfold null; omega)]
    constructor
    · intro holds next inBlocks place nextFree
      by_cases same : owner.addr = next.addr
      · exact .inl same
      · exact .inr (holds next (by grind) place nextFree)
    · intro holds next inBlocks place nextFree
      have old : next ∈ front ++ owner :: back := by grind
      refine (holds next old place nextFree).resolve_left fun same => ?_
      -- The node that was chosen is no longer free.
      have equal : owner = next := tiles.eq_of_low_eq (by simp) old same
      have distinct := tiles.nodup
      grind
  | split front back owner brk free room =>
    have inOwner : owner ∈ front ++ owner :: back := by simp
    have range := tiles.bounds inOwner
    rw [if_neg (show owner.addr ≠ null by unfold null; omega)]
    constructor
    · intro holds next inBlocks place nextFree
      by_cases same : owner.addr = next.addr
      · exact .inl same
      · exact .inr (holds next (by grind) place nextFree)
    · intro holds next inBlocks place nextFree
      -- The second part does not lie behind a live block.
      have notRest : next ≠ ⟨owner.addr + 40 + size, owner.size - size - 40, true⟩ := by
        intro same
        have differs : block ≠ owner := fun equal => by rw [equal, free] at live; cases live
        have apart := (tiles.apart member inOwner).resolve_left differs
        have start : block.stop = owner.addr + 40 + size := by rw [← place, same]
        have inside := tiles.bounds member
        simp only [Block.stop] at apart start range inside
        omega
      have old : next ∈ front ++ owner :: back := by grind
      refine (holds next old place nextFree).resolve_left fun same => ?_
      have equal : owner = next := tiles.eq_of_low_eq inOwner old same
      have distinct := tiles.nodup
      grind
  | grow blocks brk full =>
    rw [if_pos rfl]
    constructor
    · intro holds next inBlocks place nextFree
      have holds := holds next (by simp [inBlocks]) place nextFree
      omega
    · intro holds next inBlocks place nextFree
      have old : next ∈ blocks := by grind
      have range := tiles.bounds old
      have holds := holds next old place nextFree
      unfold null at holds
      omega

/-- The search finds the same node with whatever fuel it returns. -/
theorem findFreeGetAddr_unique (rep : Represents h blocks list)
    (first : findFreeGetAddr fuel h size = some found)
    (second : findFreeGetAddr fuel' h size = some found') : found = found' := by
  -- Both results are the first fit of the same list.
  have nonnull : ∀ node ∈ list, node ≠ null := fun node member => rep.nodes.nonnull member
  unfold findFreeGetAddr at first second
  rw [rep.links.head] at first second
  rw [findFreeLoop_eq rep.links.linked nonnull first,
    findFreeLoop_eq rep.links.linked nonnull second]

/-- What the program reads as the header of the block behind a pointer. -/
def nextHeader (h : Heap) (pointer : Nat) : Nat := pointer + payloadSize h pointer + dataSizeSize

/-- The block behind a pointer exists and is free. -/
def NextFree (h : Heap) (pointer : Nat) : Prop :=
  nextHeader h pointer < h.brk ∧ h.free (nextHeader h pointer) ≠ 0

/-- The header behind a payload pointer is the one of the block behind. -/
theorem Represents.behind_iff_nextFree {Holds : Nat → Prop} (rep : Represents h blocks list)
    (member : block ∈ blocks) :
    Behind block blocks Holds ↔
      (NextFree h block.payload → Holds (nextHeader h block.payload)) := by
  have header : nextHeader h block.payload = block.stop := by
    simp only [nextHeader, payloadSize_eq rep member, Block.payload, Block.stop, dataSizeSize]
    omega
  unfold NextFree
  rw [header]
  constructor
  · intro behind nextFree
    obtain ⟨below, free⟩ := nextFree
    obtain ⟨front, back, rfl⟩ := List.append_of_mem member
    have tail := rep.tiles.next
    cases back with
    | nil =>
      -- Without a block behind, its header would lie at the break.
      have last : block.stop = h.brk := tail
      omega
    | cons next back =>
      have place : next.addr = block.stop := tail.1
      have inside : next ∈ front ++ block :: next :: back := by simp
      rw [← place, Heap.free, (rep.stored next inside).flag] at free
      rw [← place]
      refine behind next inside place ?_
      cases isFree : next.free with
      | false => rw [isFree] at free; exact absurd rfl free
      | true => rfl
  · intro holds next inside place free
    have bounds := rep.bounds inside
    simp only [Block.stop] at bounds
    rw [place]
    -- A block behind lies below the break, and its flag is set.
    refine holds ⟨by rw [← place]; omega, ?_⟩
    rw [← place, Heap.free, (rep.stored next inside).flag, free]
    decide

/--
The condition under which a step joins what it frees: where a free block lies behind the given
one, a release finds its header 1024 bytes below the break, a shrinking block is not cut, and a
growing one either takes that block or finds its header 1024 bytes below the new break.
-/
def Coalesces (client : Client) (event : Event) : Prop :=
  event.given ≠ null → NextFree client.heap event.given →
    (event.requested = 0 → nextHeader client.heap event.given + 1024 ≤ client.heap.brk) ∧
    (event.requested ≠ 0 → event.requested ≤ payloadSize client.heap event.given →
      payloadSize client.heap event.given ≤ reductionLimit ∨
        payloadSize client.heap event.given ≤ event.requested + 40) ∧
    (payloadSize client.heap event.given < event.requested → ∀ fuel chosen,
      findFreeGetAddr fuel client.heap event.requested = some chosen →
      chosen = nextHeader client.heap event.given ∨
        nextHeader client.heap event.given + 1024 ≤
          if chosen = null then client.heap.brk + (40 + event.requested) else client.heap.brk)

/-- The effect of a step keeps free blocks apart exactly when the step meets the condition. -/
theorem Effect.separated_iff {event : Event} (consistent : Consistent client blocks list)
    (effect : Effect client.heap event.given event.requested blocks blocks' brk')
    (separated : Separated blocks) : Separated blocks' ↔ Coalesces client event := by
  have rep := consistent.rep
  unfold Coalesces
  generalize event.given = given at effect ⊢
  generalize event.requested = requested at effect ⊢
  cases effect with
  | idle => exact iff_of_true separated fun nonnull => absurd rfl nonnull
  | serve positive searched serves =>
    exact iff_of_true (serves.separated separated) fun nonnull => absurd rfl nonnull
  | @release block _ _ member live released =>
    have nonnull : block.payload ≠ null := Nat.succ_ne_zero _
    rw [released.separated_iff rep.tiles separated, rep.behind_iff_nextFree member]
    simp only [nonnull, ne_eq, not_false_eq_true, not_true_eq_false, true_implies, false_implies,
      Nat.not_lt_zero, and_true]
  | @trim _ block kept _ _ member live positive fits trimmed =>
    have nonnull : block.payload ≠ null := Nat.succ_ne_zero _
    rw [trimmed.separated_iff rep.tiles separated, rep.behind_iff_nextFree member,
      payloadSize_eq rep member]
    simp only [nonnull, positive, fits, Nat.not_lt.mpr fits, ne_eq, not_false_eq_true, true_implies,
      false_implies, true_and, and_true]
  | @move _ chosen fuel _ block served _ middle _ member live larger searched serves released =>
    have nonnull : block.payload ≠ null := Nat.succ_ne_zero _
    have positive : requested ≠ 0 := by omega
    have low : 0 < client.heap.base := Nat.lt_of_lt_of_le (by decide) rep.low
    rw [released.separated_iff (serves.tiles rep.tiles) (serves.separated separated),
      serves.behind_iff rep.tiles low member live, rep.behind_iff_nextFree member,
      payloadSize_eq rep member]
    simp only [nonnull, positive, larger, Nat.not_le.mpr larger, ne_eq, not_false_eq_true,
      true_implies, false_implies, implies_true, true_and]
    -- Whatever the fuel, the search chooses the node that it chose in the step.
    refine imp_congr_right fun _ => ⟨fun holds fuel' chosen' again => ?_,
      fun holds => holds fuel chosen searched⟩
    rw [findFreeGetAddr_unique rep again searched]
    exact holds

/-- The bytes fix the blocks: two layouts of one heap are the same list. -/
theorem Layout.unique (layout : Layout h blocks) (again : Layout h blocks') : blocks = blocks' := by
  have walk : ∀ {lower : Nat} {blocks blocks' : List Block},
      Tiles Block.addr Block.stop lower blocks h.brk → (∀ block ∈ blocks, Stored h block) →
      Tiles Block.addr Block.stop lower blocks' h.brk → (∀ block ∈ blocks', Stored h block) →
      blocks = blocks' := by
    intro lower blocks
    -- The two lists are compared from the front; the header at each place says what comes next.
    induction blocks generalizing lower with
    | nil =>
      intro blocks' tiles _ tiles' _
      cases blocks' with
      | nil => rfl
      | cons first rest =>
        have range := tiles'.bounds (show first ∈ first :: rest by simp)
        have : lower = h.brk := tiles
        omega
    | cons block rest ih =>
      intro blocks' tiles stored tiles' stored'
      cases blocks' with
      | nil =>
        have range := tiles.bounds (show block ∈ block :: rest by simp)
        have : lower = h.brk := tiles'
        omega
      | cons first others =>
        obtain ⟨place, _, tail⟩ := tiles
        obtain ⟨place', _, tail'⟩ := tiles'
        have addr : block.addr = first.addr := place.trans place'.symm
        have mine := stored block (by simp)
        have theirs := stored' first (by simp)
        have size : block.size = first.size := by rw [← mine.size, addr, theirs.size]
        have flags : block.free.toNat = first.free.toNat := by rw [← mine.flag, addr, theirs.flag]
        have flag : block.free = first.free := by
          cases isFree : block.free <;> cases isFree' : first.free <;> simp_all
        obtain rfl : block = first := by
          cases block
          cases first
          simp_all
        rw [ih tail (fun other member => stored other (by simp [member])) tail'
          fun other member => stored' other (by simp [member])]
  exact walk layout.tiles layout.stored again.tiles again.stored

/-- No two adjacent blocks of the heap are both free. -/
def Coalesced (h : Heap) : Prop := ∃ blocks, Layout h blocks ∧ Separated blocks

/-- A consistent step keeps the heap coalesced exactly when it meets the condition. -/
theorem Consistent.coalesced_iff {before after : Client} {event : Event}
    (consistent : Consistent before blocks list) (coalesced : Coalesced before.heap)
    (step : Step before event after) : Coalesced after.heap ↔ Coalesces before event := by
  obtain ⟨blocks', list', next, effect, _⟩ := consistent.step step
  obtain ⟨known, layout, separated⟩ := coalesced
  -- The bytes fix the blocks, so the known layout is the one of the invariant.
  rw [layout.unique consistent.rep.toLayout] at separated
  rw [← effect.separated_iff consistent separated]
  constructor
  · intro good
    obtain ⟨known, layout, separated⟩ := good
    rwa [layout.unique next.rep.toLayout] at separated
  · exact fun separated => ⟨blocks', next.rep.toLayout, separated⟩

/-- A heap without live blocks whose free blocks are joined is empty or one free block. -/
theorem Consistent.one_block (consistent : Consistent client blocks list)
    (coalesced : Coalesced client.heap) (allFreed : client.live = []) :
    client.heap.brk = client.heap.base ∨
      Layout client.heap [⟨client.heap.start, client.heap.brk - client.heap.start - 40, true⟩] := by
  obtain ⟨known, layout, separated⟩ := coalesced
  have rep := consistent.rep
  rw [layout.unique rep.toLayout] at separated
  have free : ∀ block ∈ blocks, block.free = true := fun block member => by
    cases isFree : block.free with
    | true => rfl
    | false =>
      -- A block that is not free would be held, but nothing is.
      have inHeld := consistent.owns.used block member isFree
      rw [allFreed] at inHeld
      cases inHeld
  cases blocks with
  | nil => exact .inl rep.tiles.symm
  | cons first rest =>
    cases rest with
    | nil =>
      right
      have start := rep.start_eq (show first ∈ [first] by simp)
      obtain ⟨place, _, last⟩ := rep.tiles
      have whole : first = ⟨client.heap.start, client.heap.brk - client.heap.start - 40, true⟩ := by
        have stop : first.stop = client.heap.brk := last
        have isFree := free first (by simp)
        simp only [Block.stop] at stop
        cases first
        simp only [Block.mk.injEq]
        exact ⟨by rw [start]; exact place, by simp only at stop place; omega, isFree⟩
      rw [← whole]
      exact rep.toLayout
    | cons second rest =>
      -- Two blocks would be neighbours and both free.
      have apart := (List.isChain_cons_cons.mp separated).1 (free first (by simp))
      rw [free second (by simp)] at apart
      cases apart

/--
In every run the heap stays coalesced exactly as long as every step meets the condition, and then
the heap of a program that has freed everything is one free block.
-/
theorem coalesced_run_iff (fresh : Fresh h) (run : Run Step ⟨h, []⟩ trace client) :
    ((∀ taken ∈ trace, Coalesced taken.after.heap) ↔
      ∀ taken ∈ trace, Coalesces taken.before taken.action) ∧
    ((∀ taken ∈ trace, Coalesces taken.before taken.action) → Coalesced client.heap ∧
      (client.live = [] → client.heap.brk = client.heap.base ∨
        Layout client.heap
          [⟨client.heap.start, client.heap.brk - client.heap.start - 40, true⟩])) := by
  have initial : ∃ blocks list, Consistent ⟨h, []⟩ blocks list := consistent_of_run fresh .start
  -- The invariant of the run is consistency; the good states are the coalesced ones.
  have preserved : ∀ before event after, (∃ blocks list, Consistent before blocks list) →
      Step before event after → ∃ blocks list, Consistent after blocks list := by
    intro before event after invariant step
    obtain ⟨blocks, list, consistent⟩ := invariant
    obtain ⟨blocks', list', next, _⟩ := consistent.step step
    exact ⟨blocks', list', next⟩
  have empty : Coalesced h := ⟨[], fresh.represents.toLayout, List.isChain_nil⟩
  refine ⟨@Run.all_good_iff _ _ _ _ _ _ _ (fun state => Coalesced state.heap) Coalesces run initial
    preserved empty ?_, fun meets => ?_⟩
  · intro before event after invariant coalesced step
    obtain ⟨blocks, list, consistent⟩ := invariant
    exact consistent.coalesced_iff coalesced step
  · have coalesced : Coalesced client.heap := by
      refine @Run.good_of_meets _ _ _ _ _ _ _ (fun state => Coalesced state.heap) Coalesces run
        initial preserved empty ?_ meets
      intro before event after invariant good step met
      obtain ⟨blocks, list, consistent⟩ := invariant
      exact (consistent.coalesced_iff good step).mpr met
    obtain ⟨blocks, list, consistent⟩ := run.invariant initial preserved
    exact ⟨coalesced, consistent.one_block coalesced⟩

theorem coalesced_run_iff_sample :
    ((∀ taken ∈ sampleTrace, Coalesced taken.after.heap) ↔
      ∀ taken ∈ sampleTrace, Coalesces taken.before taken.action) :=
  (coalesced_run_iff emptyProcess_fresh sample_run).1

/-- The second header of the sample is too near the break, so its two blocks are not joined. -/
theorem sample_not_coalesced : ∃ trace client, Run Step ⟨emptyProcess, []⟩ trace client ∧
    client.live = [] ∧ ¬ Coalesced client.heap := by
  refine ⟨sampleTrace, ⟨free (free twoServed 4176) 4128, []⟩, sample_run, rfl, ?_⟩
  intro coalesced
  obtain ⟨blocks, layout, separated⟩ := coalesced
  -- The heap after the sample, read from its bytes.
  have actual : Layout (free (free twoServed 4176) 4128)
      [⟨4096, 8, true⟩, ⟨4144, 8, true⟩] := by decide +kernel
  rw [layout.unique actual] at separated
  have apart := (List.isChain_cons_cons.mp separated).1 rfl
  cases apart

end SystemProgramming.Malloc
