import SystemProgramming.Malloc.Within

/-! Requests that must grow the heap, by what the kernel answers and what its memory reads like. -/

namespace SystemProgramming.Malloc

open Foundations Faulting Machine

/-- A call that may have to grow the heap. -/
inductive Request
  | malloc (size : Nat)
  | calloc (num size : Nat)
  | realloc (pointer size : Nat)
  deriving DecidableEq, Repr

namespace Request

/-- How many bytes it asks `malloc` for. -/
def bytes : Request → Nat
  | malloc size => size
  | calloc num size => wrap (num * size)
  | realloc _ size => size

/-- The block that it wants to grow, if any. -/
def pointer : Request → Nat
  | realloc pointer _ => pointer
  | _ => null

/-- Making the call. -/
def run (machine : Machine) (fuel : Nat) : Request → Program Nat
  | malloc size => machine.malloc fuel size
  | calloc num size => machine.calloc fuel num size
  | realloc pointer size => machine.realloc fuel pointer size

end Request

variable {h g : Heap} {client : Client} {trace : List (Transition Client Event)}
  {blocks : List Block} {list : List Nat} {block : Block} {request : Request}
  {kernel : Heap → Nat → Nat × Heap} {pointer size fuel place : Nat}

/-- The call has no free block to take: its bytes, and the block it grows, leave no other way. -/
structure MustGrow (client : Client) (fuel : Nat) (request : Request) : Prop where
  positive : request.bytes ≠ 0
  fits : request.bytes < 2 ^ 64
  full : findFreeGetAddr fuel client.heap request.bytes = some null
  larger : request.pointer = null ∨ request.pointer ∈ held client.live ∧
    payloadSize client.heap request.pointer < request.bytes

/--
What a program may expect when the heap must grow: where the kernel fails, null, without an access
outside the heap and with the heap as it was; where the kernel succeeds, a block.
-/
structure OutOfMemory (kernel : Heap → Nat → Nat × Heap) (fuel : Nat) (h : Heap)
    (request : Request) : Prop where
  refused : (kernel (begun h) (totalSize request.bytes)).1 = sbrkFailed →
    ∃ h', (request.run (within h.base h.brk kernel) fuel).run h = .ok (null, h') ∧
      h'.mem = h.mem ∧ h'.head = h.head ∧ h'.brk = h.brk
  served : (kernel (begun h) (totalSize request.bytes)).1 ≠ sbrkFailed →
    ∃ result h', (request.run (unguarded kernel) fuel).run h = .ok (result, h') ∧ result ≠ null

/-- Where the kernel fails, `malloc` ends at the address that the kernel returned. -/
theorem Represents.malloc_stops (rep : Represents h blocks list) (positive : size ≠ 0)
    (full : findFreeGetAddr fuel h size = some null)
    (fails : kernel (begun h) (totalSize size) = (sbrkFailed, begun h)) :
    ((within h.base h.brk kernel).malloc fuel size).run h = .error (.fault sbrkFailed) := by
  obtain ⟨repBegun, _⟩ := begun_represents rep
  have high := rep.high
  have limit := rep.limit
  have begins : begin.run h = .ok ((), begun h) := rfl
  -- Recording the start does not move the heap.
  have base : (begun h).base = h.base := by
    unfold Heap.base begun
    split <;> simp_all
  have searches := @Represents.search_within (begun h) blocks list kernel size fuel repBegun
  rw [base, begun_brk, findFreeGetAddr_begun, full] at searches
  have answered : (modifyGet fun g => (within h.base h.brk kernel).sbrk g (totalSize size) :
      Program Nat).run (begun h) = .ok (sbrkFailed, begun h) := by
    rw [run_modifyGet, ← fails]
    rfl
  have expands : ((within h.base h.brk kernel).expandHeap size).run (begun h) =
      .error (.fault sbrkFailed) := by
    unfold Machine.expandHeap
    rw [run_bind_ok answered]
    exact run_bind_error (within_check (.inr (by unfold sbrkFailed; omega)))
  unfold Machine.malloc
  rw [run_bind_ok begins, if_neg positive, run_bind_ok searches, if_pos rfl]
  exact run_bind_error expands

/-- Without checks, `malloc` returns what the first word of the new memory says. -/
theorem malloc_answered (positive : size ≠ 0) (full : findFreeGetAddr fuel h size = some null)
    (answers : kernel (begun h) (totalSize size) = (place, g)) (nonnull : place ≠ null) :
    ∃ h', ((unguarded kernel).malloc fuel size).run h =
      .ok (if g.mem.load place 4 = 2 ^ 32 - 1 then null else wrap (place + structSize), h') := by
  have begins : begin.run h = .ok ((), begun h) := rfl
  have searches := @findFreeGetAddr_unguarded kernel (begun h) size fuel
  rw [findFreeGetAddr_begun, full] at searches
  have expands := expandHeap_unguarded answers
  unfold Machine.malloc
  rw [run_bind_ok begins, if_neg positive, run_bind_ok searches, if_pos rfl]
  by_cases refused : g.mem.load place 4 = 2 ^ 32 - 1
  · rw [if_pos refused] at expands ⊢
    rw [run_bind_ok expands, if_pos rfl, run_pure]
    exact ⟨_, rfl⟩
  · rw [if_neg refused] at expands ⊢
    rw [run_bind_ok expands, if_neg nonnull, run_bind_ok deleteDataNode_unguarded, run_pure]
    exact ⟨_, rfl⟩

namespace MustGrow

/-- A block that is to be grown is not null, and its header says how large it is. -/
theorem moves (must : MustGrow client fuel (.realloc pointer size))
    (consistent : Consistent client blocks list) (given : pointer ≠ null) :
    ∃ block ∈ blocks, wrapSub pointer structSize = block.addr ∧ size ≠ 0 ∧
      ¬ client.heap.get .size block.addr ≥ size := by
  obtain ⟨known, larger⟩ := must.larger.resolve_left given
  obtain ⟨block, member, _, payload⟩ := consistent.owns.block_of_held known
  obtain ⟨header, _, _⟩ := consistent.rep.header_of_payload member
  simp only [Request.pointer] at payload
  rw [payload] at header
  refine ⟨block, member, header, must.positive, ?_⟩
  simp only [Request.pointer, payloadSize, header] at larger
  exact Nat.not_le.mpr larger

/-- Where the kernel fails, every call ends at the address that the kernel returned. -/
theorem stops (must : MustGrow client fuel request) (consistent : Consistent client blocks list)
    (fails : kernel (begun client.heap) (totalSize request.bytes) =
      (sbrkFailed, begun client.heap)) :
    (request.run (within client.heap.base client.heap.brk kernel) fuel).run client.heap =
      .error (.fault sbrkFailed) := by
  have mallocStops := consistent.rep.malloc_stops must.positive must.full fails
  cases request with
  | malloc size => exact mallocStops
  | calloc num size => exact run_bind_error mallocStops
  | realloc pointer size =>
    simp only [Request.run]
    unfold Machine.realloc
    by_cases absent : pointer = null
    · rw [if_pos absent]
      exact mallocStops
    · obtain ⟨block, member, header, positive, larger⟩ := must.moves consistent absent
      have opens := @Represents.opens_block _ _ _ _ kernel consistent.rep member
      -- The header of the block lies inside the heap, so its size is read.
      rw [if_neg absent, if_neg positive, header, run_bind_ok (run_get opens), if_neg larger]
      exact run_bind_error mallocStops

/-- Without checks, every call returns the pointer that `malloc` returned. -/
theorem returns (must : MustGrow client fuel request) (consistent : Consistent client blocks list)
    {result : Nat} {h' : Heap}
    (served : ((unguarded kernel).malloc fuel request.bytes).run client.heap = .ok (result, h')) :
    ∃ h', (request.run (unguarded kernel) fuel).run client.heap = .ok (result, h') := by
  cases request with
  | malloc size => exact ⟨h', served⟩
  | calloc num size =>
    simp only [Request.run]
    unfold Machine.calloc
    simp only [Request.bytes] at served
    rw [run_bind_ok served]
    by_cases absent : result = null
    · rw [if_pos absent, run_pure, absent]
      exact ⟨_, rfl⟩
    · rw [if_neg absent, run_bind_ok memset_unguarded, run_pure]
      exact ⟨_, rfl⟩
  | realloc pointer size =>
    simp only [Request.run]
    unfold Machine.realloc
    simp only [Request.bytes] at served
    by_cases without : pointer = null
    · rw [if_pos without]
      exact ⟨h', served⟩
    · -- The block has to move, so `malloc` is called for the new size.
      obtain ⟨block, _, header, positive, larger⟩ := must.moves consistent without
      rw [if_neg without, if_neg positive, header, run_bind_ok get_unguarded, if_neg larger]
      unfold Machine.increaseSize
      rw [run_bind_ok served]
      by_cases absent : result = null
      · rw [if_pos absent, run_pure, absent]
        exact ⟨_, rfl⟩
      · rw [if_neg absent, run_bind_ok memcpy_unguarded, run_bind_ok free_unguarded, run_pure]
        exact ⟨_, rfl⟩

end MustGrow

/--
In every heap that a program reaches and for every call that must grow it, the expectation is met
exactly where the kernel succeeds and the first word of its memory is not -1.
-/
theorem out_of_memory_iff (fresh : Fresh h) (run : Run Step ⟨h, []⟩ trace client)
    (must : MustGrow client fuel request)
    (answers : kernel (begun client.heap) (totalSize request.bytes) = (place, g))
    (either : place = sbrkFailed ∧ g = begun client.heap ∨ place = client.heap.brk) :
    OutOfMemory kernel fuel client.heap request ↔
      place ≠ sbrkFailed ∧ g.mem.load place 4 ≠ 2 ^ 32 - 1 := by
  obtain ⟨blocks, list, consistent⟩ := consistent_of_run fresh run
  have rep := consistent.rep
  have high := rep.high
  have limit := rep.limit
  have low := rep.low
  have above := rep.tiles.le
  by_cases failed : place = sbrkFailed
  · -- A refusal stops the program, so that nothing is returned.
    refine iff_of_false (fun law => ?_) fun both => both.1 failed
    have kept : g = begun client.heap := by
      rcases either with both | succeeded
      · exact both.2
      · unfold sbrkFailed at failed
        omega
    rw [failed, kept] at answers
    obtain ⟨h', returned, _⟩ := law.refused (by rw [answers])
    rw [must.stops consistent answers] at returned
    cases returned
  · have broken := either.resolve_left fun both => failed both.1
    have nonnull : place ≠ null := by
      unfold null
      omega
    obtain ⟨h₁, served⟩ := malloc_answered must.positive must.full answers nonnull
    obtain ⟨h', returned⟩ := must.returns consistent served
    -- The word at the old break decides whether the growth is taken for a refusal.
    constructor
    · intro law
      refine ⟨failed, fun refused => ?_⟩
      obtain ⟨_, _, again, present⟩ := law.served (by rw [answers]; exact failed)
      rw [if_pos refused] at returned
      rw [returned] at again
      exact present (Prod.mk.inj (Except.ok.inj again)).1.symm
    · intro good
      rw [if_neg good.2] at returned
      refine ⟨fun fails => ?_, fun _ => ⟨_, h', returned, ?_⟩⟩
      · rw [answers] at fails
        exact absurd fails failed
      · rw [wrap_of_lt (by simp only [structSize]; omega)]
        exact Nat.succ_ne_zero _

/-- The kernel of the model has room for a block that grows to a hundred bytes. -/
theorem out_of_memory_sample :
    OutOfMemory sbrk 1 twoServed (.realloc 4128 100) ↔
      4192 ≠ sbrkFailed ∧ (sbrk (begun twoServed) (totalSize 100)).2.mem.load 4192 4 ≠ 2 ^ 32 - 1 := by
  have must : MustGrow ⟨twoServed, [(4176, 8), (4128, 8)]⟩ 1 (.realloc 4128 100) :=
    ⟨by decide, by decide, by decide +kernel, .inr ⟨by decide, by decide +kernel⟩⟩
  have answers : sbrk (begun twoServed) (totalSize 100) =
      (4192, (sbrk (begun twoServed) (totalSize 100)).2) := Prod.ext (by decide +kernel) rfl
  exact out_of_memory_iff emptyProcess_fresh sample_serves must answers (.inr (by decide +kernel))

/-- A kernel that has nothing left. -/
def refusing (h : Heap) (_ : Nat) : Nat × Heap := (sbrkFailed, h)

/-- A kernel that hands out memory with all bits set. -/
def dirty (h : Heap) (increment : Nat) : Nat × Heap :=
  (h.brk, { h with brk := h.brk + increment, mem := h.mem.fill h.brk increment 255 })

/-- With no memory left `malloc` reads at `(void*)-1`, and memory with all bits set is refused. -/
theorem first_request_fails : Run Step ⟨emptyProcess, []⟩ [] ⟨emptyProcess, []⟩ ∧
    ((Request.malloc 8).run (within 4096 4096 refusing) 1).run emptyProcess =
      .error (.fault sbrkFailed) ∧
    ¬ OutOfMemory refusing 1 emptyProcess (.malloc 8) ∧
    ¬ OutOfMemory dirty 1 emptyProcess (.malloc 8) := by
  have must : MustGrow ⟨emptyProcess, []⟩ 1 (.malloc 8) :=
    ⟨by decide, by decide, by decide +kernel, .inl rfl⟩
  have run : Run Step ⟨emptyProcess, []⟩ [] ⟨emptyProcess, []⟩ := .start
  obtain ⟨blocks, list, consistent⟩ := consistent_of_run emptyProcess_fresh run
  have stops := @MustGrow.stops ⟨emptyProcess, []⟩ blocks list (.malloc 8) refusing 1 must consistent rfl
  refine ⟨run, stops, fun law => ?_, fun law => ?_⟩
  · obtain ⟨h', returned, _⟩ := law.refused rfl
    rw [stops] at returned
    cases returned
  · obtain ⟨h', served⟩ := @malloc_answered _ _ dirty 8 1 4096 must.positive must.full
      (Prod.ext (by decide +kernel) rfl) (by decide)
    obtain ⟨result, h₂, again, present⟩ := law.served (by decide +kernel)
    -- The first word of the new memory reads -1.
    rw [if_pos (by decide +kernel)] at served
    have same := served.symm.trans again
    exact present (Prod.mk.inj (Except.ok.inj same)).1.symm

end SystemProgramming.Malloc
