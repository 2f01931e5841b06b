import Mathlib.Data.List.Basic
import Mathlib.Algebra.Order.Ring.Nat
import Mathlib.Order.Interval.Finset.Nat

/-! Ranges cut without gap or overlap into consecutive pieces. -/

namespace Foundations

/-- The pieces follow one another from `lower` to `upper`, each from its own start to its end. -/
def Tiles {Piece : Type*} (low high : Piece → Nat) : Nat → List Piece → Nat → Prop
  | lower, [], upper => lower = upper
  | lower, piece :: rest, upper =>
    low piece = lower ∧ lower < high piece ∧ Tiles low high (high piece) rest upper

instance Tiles.decidable {Piece : Type*} (low high : Piece → Nat) :
    ∀ (lower : Nat) (pieces : List Piece) (upper : Nat),
      Decidable (Tiles low high lower pieces upper)
  | lower, [], upper => inferInstanceAs (Decidable (lower = upper))
  | lower, piece :: rest, upper =>
    have := Tiles.decidable low high (high piece) rest upper
    inferInstanceAs (Decidable (low piece = lower ∧ lower < high piece ∧
      Tiles low high (high piece) rest upper))

variable {Piece : Type*} {low high : Piece → Nat} {lower upper : Nat} {pieces rest : List Piece}
  {piece other : Piece}

namespace Tiles

/-- A tiling splits at every position of its list. -/
theorem append_iff : Tiles low high lower (pieces ++ rest) upper ↔
    ∃ middle, Tiles low high lower pieces middle ∧ Tiles low high middle rest upper := by
  -- The first piece belongs to the front on both sides, so the two statements recurse together.
  induction pieces generalizing lower with
  | nil => simp [Tiles]
  | cons piece pieces ih => simp [Tiles, ih, and_assoc]

/-- The range of a tiling does not run backwards. -/
theorem le (tiles : Tiles low high lower pieces upper) : lower ≤ upper := by
  -- Each piece moves the lower end up.
  induction pieces generalizing lower with
  | nil => exact Nat.le_of_eq tiles
  | cons piece pieces ih => exact Nat.le_trans (Nat.le_of_lt tiles.2.1) (ih tiles.2.2)

/-- Every piece is nonempty and lies inside the range. -/
theorem bounds (tiles : Tiles low high lower pieces upper) (member : piece ∈ pieces) :
    lower ≤ low piece ∧ low piece < high piece ∧ high piece ≤ upper := by
  -- A piece is the first one, or a piece of the tiling that starts where the first one ends.
  induction pieces generalizing lower with
  | nil => cases member
  | cons head pieces ih =>
    obtain ⟨starts, nonempty, tail⟩ := tiles
    rcases List.mem_cons.mp member with same | member
    · subst same
      exact ⟨by omega, by omega, tail.le⟩
    · obtain ⟨above, inside, below⟩ := ih tail member
      exact ⟨by omega, inside, below⟩

/-- Two pieces of a tiling are the same or lie apart. -/
theorem apart (tiles : Tiles low high lower pieces upper) (member : piece ∈ pieces)
    (second : other ∈ pieces) :
    piece = other ∨ high piece ≤ low other ∨ high other ≤ low piece := by
  -- Where one of the two is the first piece, the other one starts behind it.
  induction pieces generalizing lower with
  | nil => cases member
  | cons head pieces ih =>
    obtain ⟨starts, nonempty, tail⟩ := tiles
    rcases List.mem_cons.mp member with rfl | inRest
    · rcases List.mem_cons.mp second with rfl | otherRest
      · exact .inl rfl
      · exact .inr (.inl (tail.bounds otherRest).1)
    · rcases List.mem_cons.mp second with rfl | otherRest
      · exact .inr (.inr (tail.bounds inRest).1)
      · exact ih tail inRest otherRest

/-- Pieces that start at one place are one piece. -/
theorem eq_of_low_eq (tiles : Tiles low high lower pieces upper) (member : piece ∈ pieces)
    (second : other ∈ pieces) (same : low piece = low other) : piece = other := by
  -- Pieces that lie apart cannot start at one place, since both are nonempty.
  have first := tiles.bounds member
  have last := tiles.bounds second
  rcases tiles.apart member second with equal | apart
  · exact equal
  · omega

/-- No piece occurs twice in a tiling. -/
theorem nodup (tiles : Tiles low high lower pieces upper) : pieces.Nodup := by
  -- A later piece starts behind the first one, so it is not the first one.
  induction pieces generalizing lower with
  | nil => exact List.nodup_nil
  | cons head pieces ih =>
    obtain ⟨starts, nonempty, tail⟩ := tiles
    refine List.nodup_cons.mpr ⟨fun member => ?_, ih tail⟩
    have := (tail.bounds member).1
    omega

/-- The piece after a given one starts where it ends, and the last piece ends the range. -/
theorem next (tiles : Tiles low high lower (pieces ++ piece :: rest) upper) :
    Tiles low high (high piece) rest upper := by
  -- The tail of the list tiles the range from the end of the piece.
  obtain ⟨middle, _, tail⟩ := append_iff.mp tiles
  exact tail.2.2

/-- The pieces before a given one tile the range up to its start. -/
theorem previous (tiles : Tiles low high lower (pieces ++ piece :: rest) upper) :
    Tiles low high lower pieces (low piece) := by
  -- The range of the front ends where the piece starts.
  obtain ⟨middle, front, tail⟩ := append_iff.mp tiles
  rw [tail.1]
  exact front

/-- The list of pieces and the lower end fix the upper end. -/
theorem upper_unique {last : Nat} (tiles : Tiles low high lower pieces upper)
    (again : Tiles low high lower pieces last) : upper = last := by
  -- Both walks pass through the same ends.
  induction pieces generalizing lower with
  | nil => exact tiles.symm.trans again
  | cons head pieces ih => exact ih tiles.2.2 again.2.2

/-- A nonempty list of pieces tiles only one range. -/
theorem ends_unique {first last : Nat} (tiles : Tiles low high lower pieces upper)
    (nonempty : pieces ≠ []) (again : Tiles low high first pieces last) :
    first = lower ∧ last = upper := by
  -- The first piece fixes the lower end, and then the whole list fixes the upper one.
  cases pieces with
  | nil => exact absurd rfl nonempty
  | cons head pieces => exact ⟨again.1.symm.trans tiles.1, again.2.2.upper_unique tiles.2.2⟩

/-- Exchanging a stretch of pieces for another tiling of the same stretch keeps the tiling. -/
theorem exchange {front old new back : List Piece} {left right : Nat}
    (tiles : Tiles low high lower (front ++ (old ++ back)) upper)
    (was : Tiles low high left old right) (nonempty : old ≠ [])
    (becomes : Tiles low high left new right) :
    Tiles low high lower (front ++ (new ++ back)) upper := by
  -- The old stretch sits between two ends, and those are the ends of the new stretch as well.
  obtain ⟨first, ahead, tail⟩ := append_iff.mp tiles
  obtain ⟨last, middle, behind⟩ := append_iff.mp tail
  obtain ⟨rfl, rfl⟩ := was.ends_unique nonempty middle
  exact append_iff.mpr ⟨_, ahead, append_iff.mpr ⟨_, becomes, behind⟩⟩

end Tiles

/-- Ranges that have no number in common, below some bound, are together not longer than that. -/
theorem sum_le_of_apart (low size : Piece → Nat) {pieces : List Piece} {bound : Nat}
    (inside : ∀ piece ∈ pieces, low piece + size piece ≤ bound)
    (apart : pieces.Pairwise fun piece other =>
      low piece + size piece ≤ low other ∨ low other + size other ≤ low piece) :
    (pieces.map size).sum ≤ bound := by
  -- The numbers in the ranges are collected in a set, which has as many elements.
  suffices covered : ∃ numbers : Finset Nat, numbers.card = (pieces.map size).sum ∧
      ∀ number ∈ numbers, ∃ piece ∈ pieces, low piece ≤ number ∧ number < low piece + size piece by
    obtain ⟨numbers, count, member⟩ := covered
    have below : numbers ⊆ Finset.range bound := by
      intro number found
      obtain ⟨piece, listed, _, upper⟩ := member number found
      exact Finset.mem_range.mpr (Nat.lt_of_lt_of_le upper (inside piece listed))
    have := Finset.card_le_card below
    rwa [count, Finset.card_range] at this
  induction pieces with
  | nil => exact ⟨∅, rfl, by simp⟩
  | cons piece pieces ih =>
    obtain ⟨beside, rest⟩ := List.pairwise_cons.mp apart
    obtain ⟨numbers, count, member⟩ := ih (fun other listed => inside other (by simp [listed])) rest
    refine ⟨Finset.Ico (low piece) (low piece + size piece) ∪ numbers, ?_, ?_⟩
    · rw [Finset.card_union_of_disjoint, Nat.card_Ico, count, List.map_cons, List.sum_cons,
        Nat.add_sub_cancel_left]
      rw [Finset.disjoint_left]
      intro number here there
      obtain ⟨lower, upper⟩ := Finset.mem_Ico.mp here
      obtain ⟨other, listed, lower', upper'⟩ := member number there
      rcases beside other listed with before | behind <;> omega
    · intro number found
      rcases Finset.mem_union.mp found with here | there
      · exact ⟨piece, by simp, Finset.mem_Ico.mp here⟩
      · obtain ⟨other, listed, bounds⟩ := member number there
        exact ⟨other, by simp [listed], bounds⟩

end Foundations
