import SystemProgramming.Malloc.Coalescing

/-! How far the free blocks of a heap go before it has to grow. -/

namespace SystemProgramming.Malloc

open Foundations

variable {h : Heap} {blocks blocks' : List Block} {list : List Nat} {block served kept : Block}
  {client final : Client} {trace later : List (Transition Client Event)}
  {size chosen brk brk' given requested rest : Nat}

/-- What serving a request takes of a free block at most: the bytes, a header and a tag. -/
def charge (requested : Nat) : Nat := if requested = 0 then 0 else requested + 40

/-- What the requests of a run take at most. -/
def charges (trace : List (Transition Client Event)) : Nat :=
  (trace.map fun taken => charge taken.action.requested).sum

/-- One free block is large enough for all requests that are still to come. -/
def Roomy (rest : Nat) (blocks : List Block) : Prop :=
  rest = 0 ∨ ∃ block ∈ blocks, block.free = true ∧ rest ≤ block.size + 40

/-- Requests are charged with nothing, or with more than a header and a tag. -/
theorem charges_range (trace : List (Transition Client Event)) :
    charges trace = 0 ∨ 40 < charges trace := by
  induction trace with
  | nil => exact .inl rfl
  | cons taken trace ih =>
    simp only [charges, charge, List.map_cons, List.sum_cons] at ih ⊢
    -- A request of nothing is free, and any other one costs more than what it leaves over.
    split <;> omega

/-- Where there is room, a request is served without growth, and what is left is enough. -/
theorem Served.roomy (serves : Served size chosen blocks brk served blocks' brk')
    (range : rest = 0 ∨ 40 < rest) (roomy : Roomy (size + 40 + rest) blocks) :
    brk' = brk ∧ Roomy rest blocks' := by
  obtain ⟨room, member, isFree, enough⟩ := roomy.resolve_left (by omega)
  cases serves with
  | reuse front back block brk free fits tight =>
    refine ⟨rfl, ?_⟩
    by_cases same : room = block
    · -- A block that is handed out whole has no room for another header.
      subst same
      exact .inl (by omega)
    · exact .inr ⟨room, by grind, isFree, by omega⟩
  | split front back block brk free room' =>
    refine ⟨rfl, .inr ?_⟩
    by_cases same : room = block
    · subst same
      exact ⟨⟨room.addr + 40 + size, room.size - size - 40, true⟩, by simp, rfl,
        show rest ≤ room.size - size - 40 + 40 by omega⟩
    · exact ⟨room, by grind, isFree, by omega⟩
  | grow blocks brk full =>
    -- The heap grows only if no free block is large enough, but one is.
    have small := full room member isFree
    omega

/-- Giving a block back makes no free block smaller. -/
theorem Released.roomy (released : Released brk block blocks blocks') (live : block.free = false)
    (roomy : Roomy rest blocks) : Roomy rest blocks' := by
  rcases roomy with nothing | ⟨room, member, isFree, enough⟩
  · exact .inl nothing
  have differs : room ≠ block := fun same => by rw [same, live] at isFree; cases isFree
  refine .inr ?_
  cases released with
  | alone front back before after => exact ⟨room, by grind, isFree, enough⟩
  | withAfter front back next before after =>
    by_cases same : room = next
    · -- The block behind becomes a part of the new free block.
      subst same
      exact ⟨⟨block.addr, block.size + room.size + 40, true⟩, by simp, rfl,
        show rest ≤ block.size + room.size + 40 + 40 by omega⟩
    · exact ⟨room, by grind, isFree, enough⟩
  | withBefore front back prior before after =>
    by_cases same : room = prior
    · subst same
      exact ⟨⟨room.addr, room.size + block.size + 40, true⟩, by simp, rfl,
        show rest ≤ room.size + block.size + 40 + 40 by omega⟩
    · exact ⟨room, by grind, isFree, enough⟩
  | both front back prior next before after =>
    -- The two neighbors become parts of the new free block.
    by_cases same : room = prior ∨ room = next
    · refine ⟨⟨prior.addr, prior.size + block.size + next.size + 80, true⟩, by simp, rfl, ?_⟩
      show rest ≤ prior.size + block.size + next.size + 80 + 40
      rcases same with rfl | rfl <;> omega
    · exact ⟨room, by grind, isFree, enough⟩

/-- Trimming a block touches no free block. -/
theorem Trimmed.roomy (trimmed : Trimmed size block kept blocks blocks')
    (live : block.free = false) (roomy : Roomy rest blocks) : Roomy rest blocks' := by
  rcases roomy with nothing | ⟨room, member, isFree, enough⟩
  · exact .inl nothing
  have differs : room ≠ block := fun same => by rw [same, live] at isFree; cases isFree
  refine .inr ⟨room, ?_, isFree, enough⟩
  -- What is cut off is a free block more, and the others stay.
  cases trimmed with
  | keep blocks small => exact member
  | cut front back large room' => grind

/-- Room for more requests is room for fewer. -/
theorem Roomy.mono {more : Nat} (roomy : Roomy more blocks) (fewer : rest ≤ more) :
    Roomy rest blocks := by
  rcases roomy with nothing | ⟨room, member, isFree, enough⟩
  · exact .inl (by omega)
  · exact .inr ⟨room, member, isFree, by omega⟩

/-- No step moves the break as long as its request and all later ones have room. -/
theorem Effect.roomy (effect : Effect h given requested blocks blocks' brk')
    (range : rest = 0 ∨ 40 < rest) (roomy : Roomy (charge requested + rest) blocks) :
    brk' = h.brk ∧ Roomy rest blocks' := by
  cases effect with
  | idle blocks => exact ⟨rfl, by simpa [charge] using roomy⟩
  | serve positive searched serves =>
    -- The request is charged with its header and its tag.
    rw [charge, if_neg positive] at roomy
    exact serves.roomy range roomy
  | release member live released =>
    exact ⟨rfl, released.roomy live (by simpa [charge] using roomy)⟩
  | trim member live positive fits trimmed =>
    exact ⟨rfl, trimmed.roomy live (roomy.mono (Nat.le_add_left _ _))⟩
  | move member live larger searched serves released =>
    -- The new block is served first, and then the old one is given back.
    rw [charge, if_neg (by omega)] at roomy
    obtain ⟨same, left⟩ := serves.roomy range roomy
    exact ⟨same, released.roomy live left⟩

/-- Requests that have room move the break in no run. -/
theorem Consistent.roomy (consistent : Consistent client blocks list)
    (run : Run Step client later final) (range : rest = 0 ∨ 40 < rest)
    (roomy : Roomy (charges later + rest) blocks) :
    ∃ blocks' list', Consistent final blocks' list' ∧ final.heap.brk = client.heap.brk ∧
      Roomy rest blocks' := by
  induction run generalizing rest with
  | start => exact ⟨blocks, list, consistent, rfl, by simpa [charges] using roomy⟩
  | @next trace before after event _ step ih =>
    -- The last request is one of those that the steps before it leave room for.
    have last : charges (trace ++ [⟨before, event, after⟩]) =
        charges trace + charge event.requested := by
      simp [charges]
    rw [last, Nat.add_assoc] at roomy
    have ranges : charge event.requested + rest = 0 ∨ 40 < charge event.requested + rest := by
      unfold charge
      split <;> omega
    -- The steps before it leave the room that the last one and the rest need.
    obtain ⟨middle, list', reached, same, left⟩ := ih ranges roomy
    obtain ⟨blocks', list'', next, effect, _⟩ := reached.step step
    obtain ⟨stays, enough⟩ := effect.roomy range left
    exact ⟨blocks', list'', next, stays.trans same, enough⟩

/-- Where every step meets the condition for joining, the heap stays coalesced. -/
theorem coalesced_of_run (fresh : Fresh h) (run : Run Step ⟨h, []⟩ trace client)
    (meets : ∀ taken ∈ trace, Coalesces taken.before taken.action) : Coalesced client.heap := by
  have preserved : ∀ before event after, (∃ blocks list, Consistent before blocks list) →
      Step before event after → ∃ blocks list, Consistent after blocks list := by
    intro before event after invariant step
    obtain ⟨blocks, list, consistent⟩ := invariant
    obtain ⟨blocks', list', next, _⟩ := consistent.step step
    exact ⟨blocks', list', next⟩
  -- The empty heap is coalesced, and a step that meets the condition keeps a heap so.
  refine @Run.good_of_meets _ _ _ _ _ _ _ (fun state => Coalesced state.heap) Coalesces run
    (consistent_of_run fresh .start) preserved ⟨[], fresh.represents.toLayout, List.isChain_nil⟩
    ?_ meets
  -- A step keeps the heap coalesced exactly if it meets the condition.
  intro before event after invariant good step met
  obtain ⟨blocks, list, consistent⟩ := invariant
  exact (consistent.coalesced_iff good step).mpr met

/--
From any state that a program reaches: a free block of the heap is enough for all requests that
take no more than its room, whatever is given back, resized or written in between. Where every step
so far met the condition for joining and everything is freed, the whole heap is such a block.
-/
theorem break_stays (fresh : Fresh h) (run : Run Step ⟨h, []⟩ trace client)
    (again : Run Step client later final) :
    (∀ blocks, Layout client.heap blocks → ∀ block ∈ blocks, block.free = true →
      charges later ≤ block.size + 40 → final.heap.brk = client.heap.brk) ∧
    ((∀ taken ∈ trace, Coalesces taken.before taken.action) → client.live = [] →
      charges later ≤ client.heap.brk - client.heap.base →
      final.heap.brk = client.heap.brk) := by
  obtain ⟨blocks, list, consistent⟩ := consistent_of_run fresh run
  have stays : Roomy (charges later) blocks → final.heap.brk = client.heap.brk := fun roomy => by
    obtain ⟨_, _, _, same, _⟩ := consistent.roomy again (.inl rfl) roomy
    exact same
  refine ⟨fun known layout block member free enough => ?_, fun meets allFreed enough => ?_⟩
  · -- A heap has one layout, so its free block is one of those that are known.
    rw [layout.unique consistent.rep.toLayout] at member
    exact stays (.inr ⟨block, member, free, enough⟩)
  · rcases consistent.one_block (coalesced_of_run fresh run meets) allFreed with empty | whole
    · -- In an empty heap nothing may be asked for.
      exact stays (.inl (by omega))
    · -- The one free block reaches from the start to the break.
      have blocksAre := whole.unique consistent.rep.toLayout
      obtain ⟨place, positive, last⟩ := whole.tiles
      simp only [Block.stop] at place positive last
      refine stays (.inr ⟨_, blocksAre ▸ List.mem_singleton_self _, rfl, ?_⟩)
      show charges later ≤ client.heap.brk - client.heap.start - 40 + 40
      have ends : client.heap.start + 40 + (client.heap.brk - client.heap.start - 40) =
        client.heap.brk := last
      omega

/-- A block is served and given back, and the same bytes are asked for again. -/
theorem break_stays_sample :
    (heapAfter (free oneServed 4128) (malloc 2 (free oneServed 4128) 8)).brk =
      (free oneServed 4128).brk := by
  have first : Step ⟨emptyProcess, []⟩ (.malloc 8 4128) ⟨oneServed, [(4128, 8)]⟩ :=
    .malloc (by decide) (fun _ _ _ => by decide +kernel) (returns_heapAfter (by decide +kernel))
  have second : Step ⟨oneServed, [(4128, 8)]⟩ (.free 4128) ⟨free oneServed 4128, []⟩ :=
    .free (.inr (by decide))
  have third : Step ⟨free oneServed 4128, []⟩ (.malloc 8 4128)
      ⟨heapAfter (free oneServed 4128) (malloc 2 (free oneServed 4128) 8), [(4128, 8)]⟩ :=
    .malloc (by decide) (fun _ _ _ => by decide +kernel) (returns_heapAfter (by decide +kernel))
  refine (break_stays emptyProcess_fresh ((Run.start.next first).next second)
    (Run.start.next third)).2 (fun taken member => ?_) rfl (by decide +kernel)
  -- No block lies behind the one that is given back.
  rcases List.mem_cons.mp member with rfl | member
  · exact fun nonnull => absurd rfl nonnull
  · rw [List.mem_singleton.mp member]
    intro _ nextFree
    exact absurd nextFree.1 (by decide +kernel)

end SystemProgramming.Malloc
