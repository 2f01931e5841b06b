import SystemProgramming.Malloc.Within

/-! What a run inside the heap says of every process that agrees with it on the heap. -/

namespace SystemProgramming.Malloc

open Foundations Faulting Machine

/-- The second process has the same heap, and other bytes around it. -/
structure Agrees (lower upper : Nat) (outer : Memory) (h t : Heap) : Prop where
  process : SameProcess h t
  head : t.head = h.head
  inside : ∀ address, lower ≤ address → address < upper → t.mem address = h.mem address
  outside : ∀ address, address < lower ∨ upper ≤ address → t.mem address = outer address

variable {lower upper : Nat} {outer : Memory} {kernel : Heap → Nat → Nat × Heap} {field : Field}
  {h t : Heap} {node value address cur newData beforeStart afterEnd ptr : Nat}

/-- A load inside the heap reads the same. -/
theorem Agrees.load {width : Nat} (agrees : Agrees lower upper outer h t) (low : lower ≤ address)
    (high : address + width ≤ upper) : t.mem.load address width = h.mem.load address width :=
  Memory.load_congr fun place above below => agrees.inside place (by omega) (by omega)

/-- A store inside the heap keeps the agreement. -/
theorem Agrees.store {width : Nat} (agrees : Agrees lower upper outer h t) (low : lower ≤ address)
    (high : address + width ≤ upper) :
    Agrees lower upper outer { h with mem := h.mem.store address width value }
      { t with mem := t.mem.store address width value } where
  process := ⟨agrees.process.brk, agrees.process.start, agrees.process.floor, agrees.process.limit⟩
  head := agrees.head
  inside place above below := by
    simp only [Memory.store]
    split
    · rfl
    · exact agrees.inside place above below
  outside place away := by
    show t.mem.store address width value place = outer place
    rw [Memory.store_of_outside (by omega), agrees.outside place away]

/-- What runs inside the heap runs in the same way without checks, wherever the heap agrees. -/
abbrev Local {α : Type} (lower upper : Nat) (outer : Memory) : Program α → Program α → Prop :=
  Simulates (Agrees lower upper outer)

/-- A checked access that returned lies inside the heap. -/
theorem local_access {width : Nat} {α : Type} {program other : Program α}
    (rest : lower ≤ address → address + width ≤ upper → Local lower upper outer program other) :
    Local lower upper outer
      (check address ((within lower upper kernel).allows address width) >>= fun _ => program)
      (check address ((unguarded kernel).allows address width) >>= fun _ => other) := by
  intro h t agrees a h' returns
  by_cases inside : lower ≤ address ∧ address + width ≤ upper
  · rw [within_allows inside.1 inside.2, run_bind_ok run_check_true] at returns
    exact rest inside.1 inside.2 h t agrees a h' returns
  · rw [run_bind_error (within_check (by omega))] at returns
    cases returns

namespace Machine

theorem local_get : Local lower upper outer ((within lower upper kernel).get field node)
    ((unguarded kernel).get field node) := by
  apply local_access
  intro low high
  apply Simulates.state
  intro h t agrees
  have same : t.get field node = h.get field node := agrees.load low high
  rw [same]
  exact .pure _

theorem local_set : Local lower upper outer ((within lower upper kernel).set field node value)
    ((unguarded kernel).set field node value) := by
  apply local_access
  intro low high h t agrees a h' returns
  cases returns
  exact ⟨_, rfl, agrees.store low high⟩

theorem local_tag : Local lower upper outer ((within lower upper kernel).tag address)
    ((unguarded kernel).tag address) := by
  apply local_access
  intro low high
  apply Simulates.state
  intro h t agrees
  have same : t.tag address = h.tag address := agrees.load low high
  rw [same]
  exact .pure _

theorem local_setTag : Local lower upper outer ((within lower upper kernel).setTag address value)
    ((unguarded kernel).setTag address value) := by
  apply local_access
  intro low high h t agrees a h' returns
  cases returns
  exact ⟨_, rfl, agrees.store low high⟩

theorem local_head : Local lower upper outer Machine.head Machine.head := by
  apply Simulates.state
  intro h t agrees
  rw [agrees.head]
  exact .pure _

theorem local_setHead : Local lower upper outer (setHead node) (setHead node) := by
  intro h t agrees a h' returns
  cases returns
  exact ⟨_, rfl, ⟨agrees.process.brk, agrees.process.start, agrees.process.floor,
    agrees.process.limit⟩, rfl, agrees.inside, agrees.outside⟩

/-- The edits of the free list are made of local accesses. -/
theorem local_linkAtHead : Local lower upper outer ((within lower upper kernel).linkAtHead node)
    ((unguarded kernel).linkAtHead node) := by
  unfold linkAtHead
  apply local_head.bind
  intro first
  apply Simulates.ite
  · exact local_setHead.bind fun _ => local_set.bind fun _ => local_set
  · exact local_head.bind fun _ => local_set.bind fun _ => local_set.bind fun _ =>
      local_head.bind fun _ => local_set.bind fun _ => local_setHead

theorem local_deleteDataNode :
    Local lower upper outer ((within lower upper kernel).deleteDataNode node)
      ((unguarded kernel).deleteDataNode node) := by
  unfold deleteDataNode
  apply Simulates.ite (.pure _)
  apply local_get.bind
  intro before
  apply local_get.bind
  intro after
  apply Simulates.ite local_setHead
  apply Simulates.ite
  · exact local_set.bind fun _ => local_get.bind fun _ => local_get.bind fun _ => local_set
  · apply Simulates.ite
    · exact local_set.bind fun _ => local_get.bind fun _ => local_setHead
    · exact local_set

theorem local_relistSplit :
    Local lower upper outer ((within lower upper kernel).relistSplit cur newData)
      ((unguarded kernel).relistSplit cur newData) := by
  unfold relistSplit
  apply local_get.bind
  intro before
  apply local_get.bind
  intro after
  apply Simulates.ite
  · exact local_set.bind fun _ => local_get.bind fun _ => local_set
  · apply Simulates.ite local_set
    apply Simulates.ite
    · exact local_set.bind fun _ => local_setHead
    · exact local_setHead

theorem local_mergeBoth : Local lower upper outer ((within lower upper kernel).mergeBoth cur)
    ((unguarded kernel).mergeBoth cur) := by
  unfold mergeBoth
  -- Nine reads before the first write, in the order of the source.
  exact local_get.bind fun _ => local_get.bind fun _ => local_get.bind fun _ =>
    local_get.bind fun _ => local_get.bind fun _ => local_set.bind fun _ =>
    local_get.bind fun _ => local_get.bind fun _ => local_get.bind fun _ =>
    local_get.bind fun _ => local_setTag.bind fun _ => local_get.bind fun _ =>
    local_deleteDataNode.bind fun _ => local_set.bind fun _ => local_set

theorem local_mergeWithAfter :
    Local lower upper outer ((within lower upper kernel).mergeWithAfter cur)
      ((unguarded kernel).mergeWithAfter cur) := by
  unfold mergeWithAfter
  exact local_get.bind fun _ => local_get.bind fun _ => local_get.bind fun _ =>
    local_set.bind fun _ => local_get.bind fun _ => local_get.bind fun _ =>
    local_get.bind fun _ => local_setTag.bind fun _ => local_get.bind fun _ =>
    local_get.bind fun _ => local_set.bind fun _ => local_get.bind fun _ =>
    local_set.bind fun _ => local_relistSplit.bind fun _ => local_set

theorem local_mergeWithBefore :
    Local lower upper outer ((within lower upper kernel).mergeWithBefore cur)
      ((unguarded kernel).mergeWithBefore cur) := by
  unfold mergeWithBefore
  exact local_get.bind fun _ => local_get.bind fun _ => local_get.bind fun _ =>
    local_set.bind fun _ => local_get.bind fun _ => local_get.bind fun _ =>
    local_get.bind fun _ => local_setTag.bind fun _ => local_set

/-- The break and the start are those of the process, not of the bytes around the heap. -/
theorem local_joinsAfter :
    Local lower upper outer ((within lower upper kernel).joinsAfter cur afterEnd)
      ((unguarded kernel).joinsAfter cur afterEnd) := by
  unfold joinsAfter
  apply Simulates.state
  intro h t agrees
  rw [agrees.process.brk]
  apply Simulates.ite
  · exact local_get.bind fun _ => local_get.bind fun _ => .pure _
  · exact .pure _

theorem local_joinsBefore :
    Local lower upper outer ((within lower upper kernel).joinsBefore cur beforeStart)
      ((unguarded kernel).joinsBefore cur beforeStart) := by
  unfold joinsBefore
  apply Simulates.state
  intro h t agrees
  rw [agrees.process.start]
  apply Simulates.ite
  · exact local_get.bind fun _ => local_get.bind fun _ => .pure _
  · exact .pure _

/-- The two tests of the source in a row, with the second one made only where it decides. -/
theorem local_alone {α : Type} {rest onward : Bool → Program α}
    (follows : ∀ alone, Local lower upper outer (rest alone) (onward alone)) :
    Local lower upper outer
      (do
        let after ← (within lower upper kernel).joinsAfter cur afterEnd
        if after then pure false >>= rest
        else (within lower upper kernel).joinsBefore cur beforeStart >>= fun before =>
          pure (!before) >>= rest)
      (do
        let after ← (unguarded kernel).joinsAfter cur afterEnd
        if after then pure false >>= onward
        else (unguarded kernel).joinsBefore cur beforeStart >>= fun before =>
          pure (!before) >>= onward) := by
  apply local_joinsAfter.bind
  intro after
  apply Simulates.ite
  · exact (Simulates.pure _).bind follows
  · exact local_joinsBefore.bind fun _ => (Simulates.pure _).bind follows

theorem local_both {α : Type} {rest onward : Bool → Program α}
    (follows : ∀ both, Local lower upper outer (rest both) (onward both)) :
    Local lower upper outer
      (do
        let after ← (within lower upper kernel).joinsAfter cur afterEnd
        if after then (within lower upper kernel).joinsBefore cur beforeStart >>= rest
        else pure false >>= rest)
      (do
        let after ← (unguarded kernel).joinsAfter cur afterEnd
        if after then (unguarded kernel).joinsBefore cur beforeStart >>= onward
        else pure false >>= onward) := by
  apply local_joinsAfter.bind
  intro after
  apply Simulates.ite
  · exact local_joinsBefore.bind follows
  · exact (Simulates.pure _).bind follows

theorem local_mergeGetAddrs :
    Local lower upper outer ((within lower upper kernel).mergeGetAddrs cur beforeStart afterEnd)
      ((unguarded kernel).mergeGetAddrs cur beforeStart afterEnd) := by
  unfold mergeGetAddrs
  apply local_alone
  intro alone
  apply Simulates.ite
  · exact local_linkAtHead.bind fun _ => .pure _
  apply local_both
  intro both
  apply Simulates.ite local_mergeBoth
  apply local_joinsAfter.bind
  intro after
  apply Simulates.ite local_mergeWithAfter
  apply local_joinsBefore.bind
  intro before
  exact .ite local_mergeWithBefore (.pure _)

/-- What `free` does inside the heap it does whatever lies around the heap. -/
theorem local_free : Local lower upper outer ((within lower upper kernel).free ptr)
    ((unguarded kernel).free ptr) := by
  unfold free
  apply Simulates.ite (.pure _)
  exact local_set.bind fun _ => local_tag.bind fun _ => local_set.bind fun _ =>
    local_get.bind fun _ => local_set.bind fun _ => local_get.bind fun _ =>
    local_get.bind fun _ => local_mergeGetAddrs.bind fun _ => local_set

end Machine

end SystemProgramming.Malloc
