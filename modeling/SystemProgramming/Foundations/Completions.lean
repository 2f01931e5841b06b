import Mathlib.Algebra.BigOperators.Group.List.Basic
import Mathlib.Algebra.Order.Monoid.Defs
import Mathlib.Data.List.Sort
import Mathlib.Tactic.Abel

/-! Tasks that are done one after another: the sum of the times at which they are completed. -/

namespace Foundations

variable {Cost : Type*} [AddCommMonoid Cost]

/-- The sum of the completion times, when each task begins where the one before it ends. -/
def completions : List Cost → Cost
  | [] => 0
  | cost :: rest => (rest.length + 1) • cost + completions rest

/-- One task more is completed behind all the others. -/
theorem completions_concat (costs : List Cost) (cost : Cost) :
    completions (costs ++ [cost]) = completions costs + (costs.sum + cost) := by
  induction costs with
  | nil => simp [completions, one_nsmul]
  | cons first rest ih =>
    -- The first task delays all others, the new one among them.
    rw [List.cons_append, completions, completions, ih, List.length_append, List.sum_cons]
    simp only [List.length_singleton, succ_nsmul]
    abel

variable [LinearOrder Cost] [IsOrderedAddMonoid Cost]

/-- A task is best begun where it comes in the order of the costs. -/
theorem completions_orderedInsert_le (cost : Cost) (costs : List Cost) :
    completions (costs.orderedInsert (· ≤ ·) cost) ≤ completions (cost :: costs) := by
  induction costs with
  | nil => exact le_rfl
  | cons first rest ih =>
    rw [List.orderedInsert_cons]
    split
    · exact le_rfl
    · next dearer =>
      have cheaper : first ≤ cost := (not_le.mp dearer).le
      have count : (rest.orderedInsert (· ≤ ·) cost).length = rest.length + 1 :=
        List.orderedInsert_length _ _ _
      -- The cheaper task is exchanged with the one behind it.
      calc completions (first :: rest.orderedInsert (· ≤ ·) cost)
          = (rest.length + 1 + 1) • first + completions (rest.orderedInsert (· ≤ ·) cost) := by
            rw [completions, count]
        _ ≤ (rest.length + 1 + 1) • first + completions (cost :: rest) := by gcongr
        _ = first + ((rest.length + 1) • first + (rest.length + 1) • cost + completions rest) := by
            rw [completions, succ_nsmul]
            abel
        _ ≤ cost + ((rest.length + 1) • first + (rest.length + 1) • cost + completions rest) := by
            gcongr
        _ = completions (cost :: first :: rest) := by
            rw [completions, completions, List.length_cons, succ_nsmul (n := rest.length + 1)]
            abel

/-- To sort the tasks makes the sum of their completion times no larger. -/
theorem completions_insertionSort_le (costs : List Cost) :
    completions (costs.insertionSort (· ≤ ·)) ≤ completions costs := by
  induction costs with
  | nil => exact le_rfl
  | cons cost rest ih =>
    have count : (rest.insertionSort (· ≤ ·)).length = rest.length := List.length_insertionSort _ _
    refine (completions_orderedInsert_le cost (rest.insertionSort (· ≤ ·))).trans ?_
    rw [completions, completions, count]
    gcongr

/-- The shortest tasks first: no order has a smaller sum of completion times. -/
theorem completions_le_of_sorted {costs others : List Cost} (same : costs.Perm others)
    (sorted : costs.Pairwise (· ≤ ·)) : completions costs ≤ completions others := by
  have unique : costs = others.insertionSort (· ≤ ·) :=
    (same.trans (List.perm_insertionSort _ _).symm).eq_of_pairwise' sorted
      (List.pairwise_insertionSort _ _)
  rw [unique]
  exact completions_insertionSort_le others

end Foundations
