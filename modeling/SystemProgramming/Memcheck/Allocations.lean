import SystemProgramming.Foundations.Tiling
import SystemProgramming.Memcheck.Memcheck
import Mathlib.Algebra.Order.BigOperators.Group.List
import Mathlib.Algebra.Order.Ring.Nat

/-! The allocations that were made and not yet released, and how they lie in the address space. -/

namespace SystemProgramming.Memcheck

open Foundations

/-- What the checker is told of an allocation, and where its node lies. -/
structure Allocation where
  address : UInt64
  requestSize : UInt64
  filename : UInt64
  instruction : UInt64
  deriving DecidableEq, Repr

/-- A request adds an allocation, unless it is for nothing or is denied. -/
def acquire (given : Option UInt64) (requestSize filename instruction : UInt64)
    (allocations : List Allocation) : List Allocation :=
  if requestSize = 0 then allocations
  else
    match given with
    | none => allocations
    | some address => ⟨address, requestSize, filename, instruction⟩ :: allocations

/-- Releasing a pointer removes the allocation that it points to. -/
def release (payload : UInt64) (allocations : List Allocation) : List Allocation :=
  allocations.filter fun allocation => allocation.address ≠ payload - metaDataSize

/-- A resized allocation may lie elsewhere, and belongs to the place that asked for its new size. -/
def resize (given : Option UInt64) (payload requestSize filename instruction : UInt64)
    (allocations : List Allocation) : List Allocation :=
  match given with
  | none => allocations
  | some address =>
    allocations.map fun allocation =>
      if allocation.address = payload - metaDataSize then
        ⟨address, requestSize, filename, instruction⟩
      else allocation

/-- What a call does to the allocations that were made and not yet released. -/
def onLive (allocations : List Allocation) (call : Call) : List Allocation :=
  match call.operation with
  | .malloc requestSize filename instruction =>
    acquire call.given requestSize filename instruction allocations
  | .calloc numElements elementSize filename instruction =>
    acquire call.given (numElements * elementSize) filename instruction allocations
  | .realloc payload requestSize filename instruction =>
    if payload = 0 then acquire call.given requestSize filename instruction allocations
    else if requestSize = 0 then release payload allocations
    else resize call.given payload requestSize filename instruction allocations
  | .free payload => if payload = 0 then allocations else release payload allocations

/-- The allocations that were made and not yet released, the newest first. -/
def live (calls : List Call) : List Allocation :=
  calls.foldl onLive []

/-- The addresses that an allocation takes, with its node. -/
def Allocation.extent (allocation : Allocation) : Nat :=
  metaDataSize.toNat + allocation.requestSize.toNat

/-- The allocations lie beside each other, and none is at `NULL`. -/
structure Placed (allocations : List Allocation) : Prop where
  nonnull : ∀ allocation ∈ allocations, allocation.address ≠ 0
  inside : ∀ allocation ∈ allocations,
    allocation.address.toNat + allocation.extent ≤ addressSpace
  apart : allocations.Pairwise fun allocation other =>
    Apart allocation.address.toNat allocation.extent other.address.toNat other.extent

/-- The bytes that were asked for, in all allocations together. -/
def outstanding (allocations : List Allocation) : Nat :=
  (allocations.map fun allocation => allocation.requestSize.toNat).sum

theorem outstanding_cons (given : Allocation) (allocations : List Allocation) :
    outstanding (given :: allocations) = given.requestSize.toNat + outstanding allocations := by
  rw [outstanding, List.map_cons, List.sum_cons, ← outstanding]

theorem outstanding_append (front back : List Allocation) :
    outstanding (front ++ back) = outstanding front + outstanding back := by
  rw [outstanding, List.map_append, List.sum_append, ← outstanding, ← outstanding]

section Placed

variable {allocations front back : List Allocation} {given other : Allocation}
  {payload address requestSize filename instruction : UInt64}

/-- Apartness is symmetric. -/
theorem Apart.symm {start size other otherSize : Nat} (apart : Apart start size other otherSize) :
    Apart other otherSize start size :=
  Or.symm apart

/-- An allocation takes some addresses, as its node does. -/
theorem Allocation.extent_pos (allocation : Allocation) : 0 < allocation.extent :=
  Nat.lt_of_lt_of_le (by decide) (Nat.le_add_right metaDataSize.toNat _)

/-- Two allocations have two addresses. -/
theorem Placed.nodup (placed : Placed allocations) :
    (allocations.map Allocation.address).Nodup := by
  rw [List.Nodup, List.pairwise_map]
  apply placed.apart.imp
  intro given other apart same
  -- Ranges that are not empty and start at the same place are not apart.
  rw [same] at apart
  have := given.extent_pos
  have := other.extent_pos
  rcases apart with before | behind <;> omega

/-- All allocations, with their nodes, fit into the address space. -/
theorem Placed.extents (placed : Placed allocations) :
    (allocations.map Allocation.extent).sum ≤ addressSpace := by
  apply sum_le_of_apart (fun allocation : Allocation => allocation.address.toNat)
  · exact placed.inside
  · exact placed.apart

/-- There are fewer allocations than addresses. -/
theorem Placed.length_lt (placed : Placed allocations) : allocations.length < addressSpace := by
  have whole := placed.extents
  have each : (allocations.map Allocation.extent).length * 32 ≤
      (allocations.map Allocation.extent).sum := by
    refine List.card_nsmul_le_sum _ 32 ?_
    intro extent member
    obtain ⟨allocation, _, rfl⟩ := List.mem_map.mp member
    exact Nat.le_add_right _ _
  rw [List.length_map] at each
  rw [addressSpace] at whole ⊢
  omega

/-- The bytes that were asked for fit into a `size_t`. -/
theorem Placed.outstanding_lt {allocations : List Allocation} (placed : Placed allocations) :
    outstanding allocations < addressSpace := by
  cases allocations with
  | nil => decide
  | cons given allocations =>
    have whole := placed.extents
    have rest : outstanding allocations ≤ (allocations.map Allocation.extent).sum :=
      List.sum_le_sum fun allocation _ => Nat.le_add_left _ _
    -- One node is enough to make room.
    have own : given.extent = 32 + given.requestSize.toNat := rfl
    rw [List.map_cons, List.sum_cons] at whole
    rw [outstanding_cons]
    omega

/-- A part of the allocations. -/
theorem Placed.sublist {fewer : List Allocation} (placed : Placed allocations)
    (part : fewer.Sublist allocations) : Placed fewer :=
  ⟨fun allocation member => placed.nonnull allocation (part.subset member),
    fun allocation member => placed.inside allocation (part.subset member),
    placed.apart.sublist part⟩

/-- The order of the allocations does not matter. -/
theorem Placed.perm {others : List Allocation} (placed : Placed allocations)
    (same : allocations.Perm others) : Placed others := by
  refine ⟨fun allocation member => placed.nonnull allocation (same.mem_iff.mpr member),
    fun allocation member => placed.inside allocation (same.mem_iff.mpr member), ?_⟩
  exact placed.apart.perm same fun apart => apart.symm

/-- One more allocation, beside the others. -/
theorem Placed.cons (placed : Placed allocations) (nonnull : given.address ≠ 0)
    (inside : given.address.toNat + given.extent ≤ addressSpace)
    (apart : ∀ other ∈ allocations,
      Apart given.address.toNat given.extent other.address.toNat other.extent) :
    Placed (given :: allocations) := by
  refine ⟨?_, ?_, List.pairwise_cons.mpr ⟨apart, placed.apart⟩⟩
  · rw [List.forall_mem_cons]
    exact ⟨nonnull, placed.nonnull⟩
  · rw [List.forall_mem_cons]
    exact ⟨inside, placed.inside⟩

/-- An allocation in the middle makes way for another one. -/
theorem Placed.replace (placed : Placed (front ++ given :: back)) (nonnull : other.address ≠ 0)
    (inside : other.address.toNat + other.extent ≤ addressSpace)
    (apart : ∀ another ∈ front ++ back,
      Apart other.address.toNat other.extent another.address.toNat another.extent) :
    Placed (front ++ other :: back) := by
  -- The place in the list does not matter, so both are put in front.
  have rest : Placed (front ++ back) :=
    placed.sublist ((List.Sublist.refl front).append (List.sublist_cons_self given back))
  exact (rest.cons nonnull inside apart).perm List.perm_middle.symm

/-- The other allocations have other addresses. -/
theorem Placed.address_ne (placed : Placed (front ++ given :: back)) :
    ∀ other ∈ front ++ back, other.address ≠ given.address := by
  have distinct := (placed.perm List.perm_middle).nodup
  rw [List.map_cons, List.nodup_cons] at distinct
  intro other member same
  exact distinct.1 (same ▸ List.mem_map_of_mem member)

/-- What is released is one allocation, if there is one at that place. -/
theorem release_eq (placed : Placed (front ++ given :: back))
    (found : given.address = payload - metaDataSize) :
    release payload (front ++ given :: back) = front ++ back := by
  have others (part : List Allocation) (inside : ∀ other ∈ part, other ∈ front ++ back) :
      release payload part = part := by
    apply List.filter_eq_self.mpr
    intro other member
    exact decide_eq_true (found ▸ placed.address_ne other (inside other member))
  rw [release, List.filter_append, List.filter_cons_of_neg (by simp [found])]
  rw [← release, ← release, others front (by simp +contextual), others back (by simp +contextual)]

/-- What is resized is one allocation, if there is one at that place. -/
theorem resize_eq (placed : Placed (front ++ given :: back))
    (found : given.address = payload - metaDataSize) :
    resize (some address) payload requestSize filename instruction (front ++ given :: back) =
      front ++ ⟨address, requestSize, filename, instruction⟩ :: back := by
  have others (part : List Allocation) (inside : ∀ other ∈ part, other ∈ front ++ back) :
      resize (some address) payload requestSize filename instruction part = part := by
    refine (List.map_congr_left ?_).trans (List.map_id' part)
    intro other member
    exact if_neg (found ▸ placed.address_ne other (inside other member))
  have front_eq := others front (by simp +contextual)
  have back_eq := others back (by simp +contextual)
  simp only [resize] at front_eq back_eq ⊢
  rw [List.map_append, List.map_cons, if_pos found, front_eq, back_eq]

/-- Nothing is released where nothing is allocated. -/
theorem release_absent {allocations : List Allocation}
    (absent : payload - metaDataSize ∉ allocations.map Allocation.address) :
    release payload allocations = allocations := by
  apply List.filter_eq_self.mpr
  intro other member
  apply decide_eq_true
  intro same
  exact absent (same ▸ List.mem_map_of_mem member)

/-- Nothing is resized where nothing is allocated. -/
theorem resize_absent {given : Option UInt64} {allocations : List Allocation}
    (absent : payload - metaDataSize ∉ allocations.map Allocation.address) :
    resize given payload requestSize filename instruction allocations = allocations := by
  cases given with
  | none => rfl
  | some address =>
    refine (List.map_congr_left ?_).trans (List.map_id' allocations)
    intro other member
    apply if_neg
    intro same
    exact absent (same ▸ List.mem_map_of_mem member)

end Placed

end SystemProgramming.Memcheck
