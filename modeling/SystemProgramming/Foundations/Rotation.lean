import Mathlib.Data.List.Nodup
import Mathlib.Data.Multiset.ZeroCons
import Mathlib.Order.Lattice

/-!
Taking turns by time stamps: an item that goes back is stamped with the time, a new one with an
earlier time than all others, and an item with the earliest stamp is taken next.
-/

namespace Foundations

variable {Item Time : Type*} [LinearOrder Time] {stamp stamp' : Item → Time}
  {waiting : Multiset Item} {awaited item : Item} {time : Time} {queued : Multiset Item}
  {taken : List Item}

/--
An item waits with a stamp. Of those that were queued before it, each has been taken or waits with
an earlier stamp; those that have been taken, and wait again, have a later one.
-/
structure Awaits (stamp : Item → Time) (waiting : Multiset Item) (awaited : Item) (time : Time)
    (queued : Multiset Item) (taken : List Item) : Prop where
  waits : awaited ∈ waiting
  stamped : stamp awaited = time
  before : ∀ item ∈ queued, item ∈ taken ∨ (item ∈ waiting ∧ stamp item < time)
  again : ∀ item ∈ waiting, item ∈ taken → time < stamp item
  once : taken.Nodup

namespace Awaits

/-- An item goes back behind all that wait. -/
theorem start (stamped : stamp awaited = time) (before : ∀ item ∈ queued, stamp item < time) :
    Awaits stamp (awaited ::ₘ queued) awaited time queued [] where
  waits := Multiset.mem_cons_self _ _
  stamped := stamped
  before item member := .inr ⟨Multiset.mem_cons_of_mem member, before item member⟩
  again _ _ none := by cases none
  once := .nil

/-- The stamps of other items do not matter. -/
theorem congr (awaits : Awaits stamp waiting awaited time queued taken)
    (same : ∀ item ∈ waiting, stamp' item = stamp item) :
    Awaits stamp' waiting awaited time queued taken where
  waits := awaits.waits
  stamped := (same _ awaits.waits).trans awaits.stamped
  before item member := (awaits.before item member).imp_right fun waits =>
    ⟨waits.1, (same item waits.1).trans_lt waits.2⟩
  again item waits done := (awaits.again item waits done).trans_eq (same item waits).symm
  once := awaits.once

/-- An item comes that is new, or that goes back later. -/
theorem add (awaits : Awaits stamp waiting awaited time queued taken)
    (behind : item ∉ taken ∨ time < stamp item) :
    Awaits stamp (item ::ₘ waiting) awaited time queued taken where
  waits := Multiset.mem_cons_of_mem awaits.waits
  stamped := awaits.stamped
  before other member := (awaits.before other member).imp_right fun waits =>
    ⟨Multiset.mem_cons_of_mem waits.1, waits.2⟩
  again other waits done := by
    rcases Multiset.mem_cons.mp waits with same | old
    · subst same
      exact behind.resolve_left (not_not_intro done)
    · exact awaits.again other old done
  once := awaits.once

/-- Another item that is taken had not been taken before. -/
theorem take (awaits : Awaits stamp (item ::ₘ waiting) awaited time queued taken)
    (nodup : (item ::ₘ waiting).Nodup) (least : stamp item ≤ stamp awaited)
    (apart : item ≠ awaited) : Awaits stamp waiting awaited time queued (taken ++ [item]) where
  waits := (Multiset.mem_cons.mp awaits.waits).resolve_left apart.symm
  stamped := awaits.stamped
  before other member := by
    rcases awaits.before other member with done | ⟨waits, earlier⟩
    · exact .inl (List.mem_append_left _ done)
    · rcases Multiset.mem_cons.mp waits with same | old
      · exact .inl (by simp [same])
      · exact .inr ⟨old, earlier⟩
  again other waits done := by
    rcases List.mem_append.mp done with old | new
    · exact awaits.again other (Multiset.mem_cons_of_mem waits) old
    · -- The item that is taken waits only once.
      rw [List.mem_singleton.mp new] at waits
      exact absurd waits (Multiset.nodup_cons.mp nodup).1
  once := by
    rw [List.nodup_append]
    refine ⟨awaits.once, List.nodup_singleton _, ?_⟩
    intro a old b new same
    rw [List.mem_singleton.mp new] at same
    -- It would wait again, behind the awaited one.
    have later := awaits.again item (Multiset.mem_cons_self _ _) (same ▸ old)
    rw [← awaits.stamped] at later
    exact absurd later least.not_gt

/-- When the awaited item is taken, all that were queued before it have been taken. -/
theorem complete (awaits : Awaits stamp waiting awaited time queued taken)
    (least : ∀ item ∈ waiting, stamp awaited ≤ stamp item) : ∀ item ∈ queued, item ∈ taken := by
  intro item member
  rcases awaits.before item member with done | ⟨waits, earlier⟩
  · exact done
  · exact absurd earlier (awaits.stamped ▸ (least item waits)).not_gt

end Awaits

end Foundations
