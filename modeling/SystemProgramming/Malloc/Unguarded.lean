import SystemProgramming.Malloc.Machine

/-! Without checks the machine does what the allocator does. -/

namespace SystemProgramming.Malloc.Machine

open Foundations Faulting

/-- The machine on which every access is allowed, with any kernel. -/
def unguarded (sbrk : Heap → Nat → Nat × Heap) : Machine := ⟨sbrk, fun _ _ => true⟩

variable {machine : Machine} {sbrk : Heap → Nat → Nat × Heap} {h g : Heap} {field : Field}
  {node value address cur newData beforeStart afterEnd ptr size fuel num newsize place : Nat}
  {byte : UInt8}

@[simp] theorem get_unguarded :
    ((unguarded sbrk).get field node).run h = .ok (h.get field node, h) := rfl

@[simp] theorem set_unguarded :
    ((unguarded sbrk).set field node value).run h = .ok ((), h.set field node value) := rfl

@[simp] theorem tag_unguarded : ((unguarded sbrk).tag address).run h = .ok (h.tag address, h) := rfl

@[simp] theorem setTag_unguarded :
    ((unguarded sbrk).setTag address value).run h = .ok ((), h.setTag address value) := rfl

/-- Without checks every list edit does what the allocator does. -/
@[simp] theorem deleteDataNode_unguarded :
    ((unguarded sbrk).deleteDataNode node).run h = .ok ((), Malloc.deleteDataNode h node) := by
  simp only [deleteDataNode, Malloc.deleteDataNode, run_ite, run_bind, run_pure, get_unguarded,
    set_unguarded, run_setHead]
  split_ifs <;> rfl

@[simp] theorem relistSplit_unguarded : ((unguarded sbrk).relistSplit cur newData).run h =
    .ok ((), Malloc.relistSplit h cur newData) := by
  simp only [relistSplit, Malloc.relistSplit, run_ite, run_bind, get_unguarded, set_unguarded,
    run_setHead]
  split_ifs <;> rfl

@[simp] theorem linkAtHead_unguarded :
    ((unguarded sbrk).linkAtHead node).run h = .ok ((), Malloc.linkAtHead h node) := by
  simp only [linkAtHead, Malloc.linkAtHead, run_ite, run_bind, run_head, set_unguarded, run_setHead]
  split_ifs <;> rfl

@[simp] theorem splitMetadata_unguarded : ((unguarded sbrk).splitMetadata cur newsize).run h =
    .ok ((), Malloc.splitMetadata h cur newsize) := by
  simp only [splitMetadata, Malloc.splitMetadata, run_bind, get_unguarded, set_unguarded,
    setTag_unguarded, relistSplit_unguarded]

@[simp] theorem mergeBoth_unguarded :
    ((unguarded sbrk).mergeBoth cur).run h = .ok ((), Malloc.mergeBoth h cur) := by
  simp only [mergeBoth, Malloc.mergeBoth, run_bind, get_unguarded, set_unguarded, setTag_unguarded,
    deleteDataNode_unguarded]

@[simp] theorem mergeWithAfter_unguarded :
    ((unguarded sbrk).mergeWithAfter cur).run h = .ok ((), Malloc.mergeWithAfter h cur) := by
  simp only [mergeWithAfter, Malloc.mergeWithAfter, run_bind, get_unguarded, set_unguarded,
    setTag_unguarded, relistSplit_unguarded]

@[simp] theorem mergeWithBefore_unguarded :
    ((unguarded sbrk).mergeWithBefore cur).run h = .ok ((), Malloc.mergeWithBefore h cur) := by
  simp only [mergeWithBefore, Malloc.mergeWithBefore, run_bind, get_unguarded, set_unguarded,
    setTag_unguarded]

/-- The test for the block behind reads its flag only where its header ends below the break. -/
theorem joinsAfter_run (own : machine.Opens cur)
    (behind : afterEnd ≤ h.brk → machine.Opens (h.get .after cur)) :
    (machine.joinsAfter cur afterEnd).run h =
      .ok (decide (afterEnd ≤ h.brk ∧ h.free (h.after cur) ≠ 0), h) := by
  unfold joinsAfter
  rw [run_bind_ok run_state, run_ite]
  by_cases reached : afterEnd ≤ h.brk
  · rw [if_pos reached, run_bind_ok (run_get own), run_bind_ok (run_get (behind reached)), run_pure]
    simp [reached]
  · rw [if_neg reached, run_pure]
    simp [reached]

/-- The test for the block in front reads its flag only where its header lies above the start. -/
theorem joinsBefore_run (own : machine.Opens cur)
    (ahead : beforeStart ≥ h.start → machine.Opens (h.get .before cur)) :
    (machine.joinsBefore cur beforeStart).run h =
      .ok (decide (beforeStart ≥ h.start ∧ h.free (h.before cur) ≠ 0), h) := by
  unfold joinsBefore
  rw [run_bind_ok run_state, run_ite]
  by_cases reached : beforeStart ≥ h.start
  · rw [if_pos reached, run_bind_ok (run_get own), run_bind_ok (run_get (ahead reached)), run_pure]
    simp [reached]
  · rw [if_neg reached, run_pure]
    simp [reached]

@[simp] theorem joinsAfter_unguarded : ((unguarded sbrk).joinsAfter cur afterEnd).run h =
    .ok (decide (afterEnd ≤ h.brk ∧ h.free (h.after cur) ≠ 0), h) :=
  joinsAfter_run (fun _ => rfl) fun _ _ => rfl

@[simp] theorem joinsBefore_unguarded : ((unguarded sbrk).joinsBefore cur beforeStart).run h =
    .ok (decide (beforeStart ≥ h.start ∧ h.free (h.before cur) ≠ 0), h) :=
  joinsBefore_run (fun _ => rfl) fun _ _ => rfl

@[simp] theorem mergeGetAddrs_unguarded :
    ((unguarded sbrk).mergeGetAddrs cur beforeStart afterEnd).run h =
      .ok ((), Malloc.mergeGetAddrs h cur beforeStart afterEnd) := by
  simp only [mergeGetAddrs, Malloc.mergeGetAddrs, run_bind, run_ite, run_pure, joinsAfter_unguarded,
    joinsBefore_unguarded, linkAtHead_unguarded, mergeBoth_unguarded, mergeWithAfter_unguarded,
    mergeWithBefore_unguarded]
  -- The two tests have four outcomes together.
  by_cases after : afterEnd ≤ h.brk ∧ h.free (h.after cur) ≠ 0
  · by_cases before : beforeStart ≥ h.start ∧ h.free (h.before cur) ≠ 0 <;> simp [after, before]
  · by_cases before : beforeStart ≥ h.start ∧ h.free (h.before cur) ≠ 0 <;> simp [after, before]

/-- Without checks `free` is what it was. -/
@[simp] theorem free_unguarded :
    ((unguarded sbrk).free ptr).run h = .ok ((), Malloc.free h ptr) := by
  by_cases absent : ptr = null
  · simp only [free, Malloc.free, if_pos absent, run_pure]
  · unfold free Malloc.free
    simp only [if_neg absent, Heap.before, Heap.after, Heap.size]
    -- One statement after the other, so that no read is ever evaluated.
    rw [run_bind_ok set_unguarded, run_bind_ok tag_unguarded, run_bind_ok set_unguarded,
      run_bind_ok get_unguarded, run_bind_ok set_unguarded, run_bind_ok get_unguarded,
      run_bind_ok get_unguarded, run_bind_ok mergeGetAddrs_unguarded, set_unguarded]

/-- The header, the link and the tag of a new block. -/
def placed (h : Heap) (place size : Nat) : Heap :=
  let h := h.set .size place size
  let h := h.set .free place 0
  let h := h.set .before place null
  let h := h.set .after place h.head
  let h := if h.head ≠ null then h.set .before h.head place else h
  let h := { h with head := place }
  h.setTag (wrap (place + structSize + size)) size

/-- Without checks a new block is placed where the kernel says, unless the word there refuses. -/
theorem expandHeap_unguarded (answers : sbrk h (totalSize size) = (place, g)) :
    ((unguarded sbrk).expandHeap size).run h =
      .ok (if g.mem.load place 4 = 2 ^ 32 - 1 then (null, g) else (place, placed g place size)) := by
  have answered : (modifyGet fun h => (unguarded sbrk).sbrk h (totalSize size) : Program Nat).run h =
      .ok (place, g) := by rw [run_modifyGet, ← answers]; rfl
  have checked : (check place ((unguarded sbrk).allows place 4) : Program Unit).run g =
      .ok ((), g) := rfl
  unfold expandHeap
  rw [run_bind_ok answered, run_bind_ok checked, run_bind_ok run_state, run_ite]
  by_cases refused : g.mem.load place 4 = 2 ^ 32 - 1
  · rw [if_pos refused, if_pos refused, run_pure]
  · rw [if_neg refused, if_neg refused]
    unfold placed
    rw [run_bind_ok set_unguarded, run_bind_ok set_unguarded, run_bind_ok set_unguarded,
      run_bind_ok run_head, run_bind_ok set_unguarded, run_bind_ok run_head]
    -- The old first node is linked back only if there is one.
    by_cases empty : g.head = null
    · simp only [Heap.set_head, empty, ne_eq, not_true_eq_false, if_false]
      rw [run_bind_ok run_setHead, run_bind_ok setTag_unguarded, run_pure]
    · simp only [Heap.set_head, empty, ne_eq, not_false_eq_true, if_true]
      rw [run_bind_ok run_head, run_bind_ok set_unguarded, run_bind_ok run_setHead,
        run_bind_ok setTag_unguarded, run_pure]
      rfl

/-- What a run makes of an outcome that may lack fuel. -/
def returned {α : Type} : Option (α × Heap) → Except Stop (α × Heap)
  | some outcome => .ok outcome
  | none => .error .fuel

/-- The search does not stop as long as it stays on nodes that are allowed. -/
theorem findFreeLoop_run (Good : Nat → Prop) (opens : ∀ node, Good node → machine.Opens node)
    (next : ∀ node, Good node → h.after node ≠ null → Good (h.after node))
    (first : node ≠ null → Good node) : (machine.findFreeLoop size fuel node).run h =
      returned ((Malloc.findFreeLoop h size fuel node).map fun found => (found, h)) := by
  induction fuel generalizing node with
  | zero => rfl
  | succ fuel ih =>
    unfold findFreeLoop Malloc.findFreeLoop
    by_cases last : node = null
    · rw [if_pos last, if_pos last, run_pure]
      rfl
    · have good := first last
      have onward := ih (next node good)
      have opened := opens node good
      rw [if_neg last, if_neg last, run_bind_ok (run_get opened)]
      -- The size is read only where the flag is set.
      by_cases free : h.get .free node ≠ 0
      · by_cases large : h.get .size node ≥ size
        · rw [if_pos free, run_bind_ok (run_get opened), if_pos large, if_pos ⟨free, large⟩, run_pure]
          rfl
        · rw [if_pos free, run_bind_ok (run_get opened), if_neg large,
            run_bind_ok (run_get opened), if_neg fun both => large both.2, onward]
      · rw [if_neg free, run_bind_ok (run_get opened), if_neg fun both => free both.1, onward]

/-- Without checks the search is what it was. -/
theorem findFreeGetAddr_unguarded : ((unguarded sbrk).findFreeGetAddr fuel size).run h =
    returned ((Malloc.findFreeGetAddr fuel h size).map fun found => (found, h)) := by
  unfold findFreeGetAddr
  rw [run_bind_ok run_head]
  exact findFreeLoop_run (fun _ => True) (fun _ _ _ => rfl) (fun _ _ _ => trivial) fun _ => trivial

/-- The same of the allocator. -/
theorem expandHeap_placed (answers : Malloc.sbrk h (totalSize size) = (place, g)) :
    Malloc.expandHeap h size =
      if g.mem.load place 4 = 2 ^ 32 - 1 then (null, g) else (place, placed g place size) := by
  unfold totalSize at answers
  simp only [Malloc.expandHeap, answers, placed]

/-- Without checks and with the kernel of the model, `malloc` is what it was. -/
theorem malloc_unguarded : ((unguarded Malloc.sbrk).malloc fuel size).run h =
    returned (Malloc.malloc fuel h size) := by
  have begins : begin.run h = .ok ((), begun h) := rfl
  unfold malloc
  rw [run_bind_ok begins]
  by_cases zero : size = 0
  · rw [if_pos zero, run_pure, zero, malloc_zero]
    rfl
  · have searches := @findFreeGetAddr_unguarded Malloc.sbrk (begun h) size fuel
    rw [if_neg zero]
    -- Both models are followed side by side, one call after the other.
    cases searched : Malloc.findFreeGetAddr fuel (begun h) size with
    | none =>
      rw [searched] at searches
      rw [malloc_unfinished zero searched]
      exact run_bind_error searches
    | some found =>
      rw [searched] at searches
      rw [malloc_eq zero searched, run_bind_ok searches]
      by_cases absent : found = null
      · rw [if_pos absent, if_pos absent]
        obtain ⟨place, g, answers⟩ : ∃ place g,
            Malloc.sbrk (begun h) (totalSize size) = (place, g) := ⟨_, _, Prod.mk.eta.symm⟩
        have expands := expandHeap_placed answers
        have expanded := expandHeap_unguarded answers
        rw [← expands] at expanded
        obtain ⟨node, g', outcome⟩ : ∃ node g', Malloc.expandHeap (begun h) size = (node, g') :=
          ⟨_, _, Prod.mk.eta.symm⟩
        rw [outcome] at expanded ⊢
        rw [run_bind_ok expanded]
        by_cases failed : node = null
        · rw [if_pos failed, if_pos failed, run_pure]
          rfl
        · rw [if_neg failed, if_neg failed, run_bind_ok deleteDataNode_unguarded, run_pure]
          rfl
      · rw [if_neg absent, if_neg absent, run_bind_ok set_unguarded, run_bind_ok get_unguarded]
        split
        · rw [run_bind_ok splitMetadata_unguarded, run_pure]
          rfl
        · rw [run_bind_ok deleteDataNode_unguarded, run_pure]
          rfl

@[simp] theorem memset_unguarded : ((unguarded sbrk).memset address byte size).run h =
    .ok ((), { h with mem := h.mem.fill address size byte }) := rfl

@[simp] theorem memcpy_unguarded : ((unguarded sbrk).memcpy address place size).run h =
    .ok ((), { h with mem := h.mem.copy address place size }) := rfl

theorem calloc_unguarded : ((unguarded Malloc.sbrk).calloc fuel num size).run h =
    returned (Malloc.calloc fuel h num size) := by
  have serves := @malloc_unguarded h (wrap (num * size)) fuel
  unfold calloc Malloc.calloc
  cases served : Malloc.malloc fuel h (wrap (num * size)) with
  | none =>
    rw [served] at serves
    exact run_bind_error serves
  | some pair =>
    rw [served] at serves
    rw [run_bind_ok serves]
    simp only
    by_cases absent : pair.1 = null
    · rw [if_pos absent, if_pos absent, run_pure]
      rfl
    · rw [if_neg absent, if_neg absent, run_bind_ok memset_unguarded, run_pure]
      rfl

@[simp] theorem splitGetAddrForReduction_unguarded :
    ((unguarded sbrk).splitGetAddrForReduction cur newsize).run h =
      .ok (Malloc.splitGetAddrForReduction h cur newsize) := by
  unfold splitGetAddrForReduction Malloc.splitGetAddrForReduction
  simp only [Heap.size]
  rw [run_bind_ok get_unguarded]
  by_cases small : h.get .size cur ≤ reductionLimit
  · rw [if_pos small, if_pos small, run_pure]
  · rw [if_neg small, if_neg small, run_bind_ok get_unguarded]
    by_cases room : wrapSub (h.get .size cur) newsize > structSize + dataSizeSize
    · rw [if_pos room, if_pos room, run_bind_ok get_unguarded, run_bind_ok set_unguarded,
        run_bind_ok set_unguarded, run_bind_ok setTag_unguarded, run_bind_ok get_unguarded,
        run_bind_ok get_unguarded, run_bind_ok setTag_unguarded,
        run_bind_ok linkAtHead_unguarded, run_bind_ok set_unguarded, run_bind_ok set_unguarded,
        run_pure]
    · rw [if_neg room, if_neg room, run_pure]

@[simp] theorem reduceSize_unguarded :
    ((unguarded sbrk).reduceSize ptr newsize).run h = .ok (Malloc.reduceSize h ptr newsize) := by
  have splits := @splitGetAddrForReduction_unguarded sbrk h (wrapSub ptr structSize) newsize
  unfold reduceSize Malloc.reduceSize
  simp only
  generalize Malloc.splitGetAddrForReduction h (wrapSub ptr structSize) newsize = outcome at splits ⊢
  rw [run_bind_ok splits, run_pure]

theorem increaseSize_unguarded :
    ((unguarded Malloc.sbrk).increaseSize fuel ptr size newsize).run h =
      returned (Malloc.increaseSize fuel h ptr size newsize) := by
  have serves := @malloc_unguarded h newsize fuel
  unfold increaseSize Malloc.increaseSize
  cases served : Malloc.malloc fuel h newsize with
  | none =>
    rw [served] at serves
    exact run_bind_error serves
  | some pair =>
    rw [served] at serves
    rw [run_bind_ok serves]
    simp only
    by_cases absent : pair.1 = null
    · rw [if_pos absent, if_pos absent, run_pure]
      rfl
    · rw [if_neg absent, if_neg absent, run_bind_ok memcpy_unguarded,
        run_bind_ok free_unguarded, run_pure]
      rfl

/-- Without checks and with the kernel of the model, `realloc` is what it was. -/
theorem realloc_unguarded : ((unguarded Malloc.sbrk).realloc fuel ptr size).run h =
    returned (Malloc.realloc fuel h ptr size) := by
  unfold realloc Malloc.realloc
  by_cases absent : ptr = null
  · rw [if_pos absent, if_pos absent]
    exact malloc_unguarded
  · rw [if_neg absent, if_neg absent]
    by_cases empty : size = 0
    · rw [if_pos empty, if_pos empty, run_bind_ok free_unguarded, run_pure]
      rfl
    · rw [if_neg empty, if_neg empty, run_bind_ok get_unguarded]
      simp only [Heap.size]
      by_cases shrinks : h.get .size (wrapSub ptr structSize) ≥ size
      · rw [if_pos shrinks, if_pos shrinks, reduceSize_unguarded]
        rfl
      · rw [if_neg shrinks, if_neg shrinks, increaseSize_unguarded]

end SystemProgramming.Malloc.Machine
