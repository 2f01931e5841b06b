import Mathlib.Algebra.Order.Ring.Nat
import Mathlib.Data.List.Basic

/-! Cutting a list into pieces, and reducing it piece by piece. -/

namespace Foundations

variable {Value : Type*} {list : List Value} {place : Nat → Nat} {count : Nat}

/-- So many values of a list, from an offset on. -/
def slice (list : List Value) (offset length : Nat) : List Value := (list.drop offset).take length

/-- The pieces between growing places are together what lies before the last of these places. -/
theorem flatten_slices (start : place 0 = 0) (grows : ∀ i < count, place i ≤ place (i + 1)) :
    ((List.range count).map fun i => slice list (place i) (place (i + 1) - place i)).flatten =
      list.take (place count) := by
  induction count with
  | zero => rw [start, List.take_zero, List.range_zero, List.map_nil, List.flatten_nil]
  | succ count ih =>
    have before := ih fun i below => grows i (Nat.lt_succ_of_lt below)
    have whole : place (count + 1) = place count + (place (count + 1) - place count) :=
      (Nat.add_sub_of_le (grows count (Nat.lt_succ_self _))).symm
    -- The last piece starts where those before it end.
    rw [List.range_succ, List.map_append, List.flatten_append, before, List.map_singleton,
      List.flatten_singleton, whole, Nat.add_sub_cancel_left, List.take_add, slice]

variable {combine : Value → Value → Value} {identity : Value}

/-- Reducing pieces, and then what they are reduced to, is reducing all that is in them. -/
theorem foldl_pieces [Std.Associative combine] [Std.LawfulIdentity combine identity]
    (pieces : List (List Value)) :
    (pieces.map (List.foldl combine identity)).foldl combine identity =
      pieces.flatten.foldl combine identity := by
  rw [List.foldl_map, List.foldl_flatten]
  congr 1
  funext result piece
  -- The identity in front of a piece can be replaced by what is combined with it.
  have absorbed : piece.foldl combine (combine result identity) =
      combine result (piece.foldl combine identity) := List.foldl_assoc
  have same : combine result identity = result := Std.LawfulRightIdentity.right_id result
  rw [← absorbed, same]

end Foundations
