import Mathlib.Data.List.Basic
import Mathlib.Data.List.Nodup

/-! Doubly linked lists threaded through two link fields of their cells. -/

namespace Foundations

/--
The cells are linked in order, both ways: the first one points back to `prior` and the last one
forward to `next`.
-/
def Linked {Cell : Type*} (before after : Cell → Cell) : Cell → Cell → List Cell → Prop
  | _, _, [] => True
  | prior, next, cell :: rest =>
    before cell = prior ∧ after cell = rest.headD next ∧ Linked before after cell next rest

variable {Cell : Type*} {before after newBefore newAfter : Cell → Cell} {prior next : Cell}
  {cells front back : List Cell} {cell : Cell}

namespace Linked

/-- The links of a concatenation are those of its two parts, joined at the seam. -/
theorem append_iff : Linked before after prior next (front ++ back) ↔
    Linked before after prior (back.headD next) front ∧
      Linked before after (front.getLastD prior) next back := by
  -- The induction walks through the front; its last cell is where the two parts meet.
  induction front generalizing prior with
  | nil => simp [Linked]
  | cons head front ih =>
    cases front with
    -- A front of one cell is itself the seam.
    | nil => simp [Linked, and_assoc]
    | cons second front =>
      -- The seam lies further back, so the hypothesis speaks about the same seam.
      have seam := @ih head
      simp only [List.cons_append, List.getLastD_cons] at seam
      simp only [List.cons_append, Linked, List.headD_cons, List.getLastD_cons] at seam ⊢
      rw [seam]
      simp only [and_assoc]

/-- The links of a cell inside a list name its two neighbours. -/
theorem neighbours (linked : Linked before after prior next (front ++ cell :: back)) :
    before cell = front.getLastD prior ∧ after cell = back.headD next := by
  -- The front ends at the cell's predecessor, and the cell itself opens the rest.
  obtain ⟨_, tail⟩ := append_iff.mp linked
  exact ⟨tail.1, tail.2.1⟩

/-- Link fields that agree on the cells of a list link it between the same ends. -/
theorem congr (linked : Linked before after prior next cells)
    (backward : ∀ cell ∈ cells, newBefore cell = before cell)
    (forward : ∀ cell ∈ cells, newAfter cell = after cell) :
    Linked newBefore newAfter prior next cells := by
  -- Only the links of the cells themselves are compared, one cell at a time.
  induction cells generalizing prior with
  | nil => trivial
  | cons head rest ih =>
    obtain ⟨first, second, tail⟩ := linked
    refine ⟨by rw [backward head (by simp), first], by rw [forward head (by simp), second], ?_⟩
    exact ih tail (fun cell member => backward cell (by simp [member]))
      (fun cell member => forward cell (by simp [member]))

variable [DecidableEq Cell]

/-- Changing the backward link of the first cell changes the prior end of a list. -/
theorem repoint_first {newPrior : Cell} (linked : Linked before after prior next cells)
    (distinct : cells.Nodup)
    (backward : ∀ cell ∈ cells,
      newBefore cell = if cells.head? = some cell then newPrior else before cell)
    (forward : ∀ cell ∈ cells, newAfter cell = after cell) :
    Linked newBefore newAfter newPrior next cells := by
  -- Only the first cell sees the new end, since no other cell equals it.
  cases cells with
  | nil => trivial
  | cons head rest =>
    obtain ⟨_, links, tail⟩ := linked
    have fresh := (List.nodup_cons.mp distinct).1
    refine ⟨by simpa using backward head (by simp), by rw [forward head (by simp), links], ?_⟩
    refine tail.congr (fun cell member => ?_) (fun cell member => forward cell (by simp [member]))
    -- A cell of the tail is not the head, so its backward link stays.
    have notHead : head ≠ cell := fun same => fresh (same ▸ member)
    simpa [notHead] using backward cell (by simp [member])

/-- Changing the forward link of the last cell changes the next end of a list. -/
theorem repoint_last {newNext : Cell} (linked : Linked before after prior next cells)
    (distinct : cells.Nodup)
    (backward : ∀ cell ∈ cells, newBefore cell = before cell)
    (forward : ∀ cell ∈ cells,
      newAfter cell = if cells.getLast? = some cell then newNext else after cell) :
    Linked newBefore newAfter prior newNext cells := by
  -- The walk goes down to the last cell, which alone sees the new end.
  induction cells generalizing prior with
  | nil => trivial
  | cons head rest ih =>
    obtain ⟨first, links, tail⟩ := linked
    obtain ⟨fresh, distinctRest⟩ := List.nodup_cons.mp distinct
    have headFor := forward head (by simp)
    have back : newBefore head = prior := by rw [backward head (by simp), first]
    cases rest with
    | nil => exact ⟨back, by simpa using headFor, trivial⟩
    | cons second rest =>
      -- The head is not the last cell, so only the tail sees the new end.
      have notLast : (head :: second :: rest).getLast? ≠ some head := by
        rw [List.getLast?_cons_cons]
        exact fun last => fresh (List.mem_of_getLast? last)
      refine ⟨back, by rw [headFor, if_neg notLast, links]; rfl, ?_⟩
      refine ih tail distinctRest (fun cell member => backward cell (by simp [member]))
        (fun cell member => ?_)
      simpa only [List.getLast?_cons_cons] using forward cell (by simp [member])

omit [DecidableEq Cell] in
/-- A cell of one half of a list without repetitions is not at the seam of the other half. -/
private theorem not_seam (distinct : (front ++ back).Nodup) :
    (∀ cell ∈ front, back.head? ≠ some cell) ∧ ∀ cell ∈ back, front.getLast? ≠ some cell := by
  -- The two halves share no cell.
  have apart := (List.nodup_append.mp distinct).2.2
  refine ⟨fun cell member first => ?_, fun cell member last => ?_⟩
  · exact apart cell member cell (List.mem_of_mem_head? first) rfl
  · exact apart cell (List.mem_of_getLast? last) cell member rfl

/--
Only the seam of two joined lists needs new links: the last cell of the front points forward to
`onward` and the first cell of the back points back to `backward`.
-/
private theorem rejoin {onward backward : Cell} (distinct : (front ++ back).Nodup)
    (ahead : Linked before after prior cell front)
    (behind : Linked before after cell next back)
    (backwards : ∀ other ∈ front ++ back,
      newBefore other = if back.head? = some other then backward else before other)
    (forwards : ∀ other ∈ front ++ back,
      newAfter other = if front.getLast? = some other then onward else after other) :
    Linked newBefore newAfter prior onward front ∧
      Linked newBefore newAfter backward next back := by
  obtain ⟨frontApart, backApart⟩ := not_seam distinct
  have parts := List.nodup_append.mp distinct
  refine ⟨ahead.repoint_last parts.1 (fun other member => ?_) (fun other member => ?_),
    behind.repoint_first parts.2.1 (fun other member => ?_) (fun other member => ?_)⟩
  · rw [backwards other (by simp [member]), if_neg (frontApart other member)]
  · exact forwards other (by simp [member])
  · exact backwards other (by simp [member])
  · rw [forwards other (by simp [member]), if_neg (backApart other member)]

/-- Unlinking one cell joins its two neighbours. -/
theorem unlink (linked : Linked before after prior next (front ++ cell :: back))
    (distinct : (front ++ back).Nodup)
    (backwards : ∀ other ∈ front ++ back, newBefore other =
      if back.head? = some other then front.getLastD prior else before other)
    (forwards : ∀ other ∈ front ++ back, newAfter other =
      if front.getLast? = some other then back.headD next else after other) :
    Linked newBefore newAfter prior next (front ++ back) := by
  -- The two halves keep their inner links, and only the seam between them is new.
  obtain ⟨ahead, _, _, behind⟩ := append_iff.mp linked
  exact append_iff.mpr (rejoin distinct ahead behind backwards forwards)

/-- Replacing one cell by a new one points both neighbours at the new cell. -/
theorem replace {fresh : Cell} (linked : Linked before after prior next (front ++ cell :: back))
    (distinct : (front ++ back).Nodup)
    (freshBefore : newBefore fresh = front.getLastD prior)
    (freshAfter : newAfter fresh = back.headD next)
    (backwards : ∀ other ∈ front ++ back,
      newBefore other = if back.head? = some other then fresh else before other)
    (forwards : ∀ other ∈ front ++ back,
      newAfter other = if front.getLast? = some other then fresh else after other) :
    Linked newBefore newAfter prior next (front ++ fresh :: back) := by
  -- The halves are rejoined through the new cell, which then opens the second one.
  obtain ⟨ahead, _, _, behind⟩ := append_iff.mp linked
  obtain ⟨newAhead, newBehind⟩ := rejoin distinct ahead behind backwards forwards
  exact append_iff.mpr ⟨newAhead, freshBefore, freshAfter, newBehind⟩

/-- Linking a new cell in front of a list points the old first cell back at it. -/
theorem push {fresh : Cell} (linked : Linked before after prior next cells)
    (distinct : cells.Nodup) (freshBefore : newBefore fresh = prior)
    (freshAfter : newAfter fresh = cells.headD next)
    (backwards : ∀ other ∈ cells,
      newBefore other = if cells.head? = some other then fresh else before other)
    (forwards : ∀ other ∈ cells, newAfter other = after other) :
    Linked newBefore newAfter prior next (fresh :: cells) :=
  ⟨freshBefore, freshAfter, linked.repoint_first distinct backwards forwards⟩

end Linked

end Foundations
