import SystemProgramming.Foundations.ByteMemory
import Mathlib.Data.List.GetD

/-! Sequences of bytes spread over blocks of a memory, and the pieces they are copied in. -/

namespace Foundations

namespace Memory

variable {memory : Memory} {address width span : Nat} {front back : List UInt8}

/-- Writing no bytes changes nothing. -/
@[simp] theorem writeBytes_nil : writeBytes memory address [] = memory := by
  -- No position lies in an empty range.
  funext a
  apply writeBytes_of_outside
  rw [List.length_nil]
  omega

/-- Writing two pieces one behind the other is writing the whole. -/
theorem writeBytes_append :
    writeBytes (writeBytes memory address front) (address + front.length) back =
      writeBytes memory address (front ++ back) := by
  -- A byte lies in the front, in the back, or outside of both.
  funext a
  simp only [writeBytes, List.length_append]
  by_cases before : a < address
  · rw [if_neg (by omega), if_neg (by omega), if_neg (by omega)]
  · by_cases inFront : a < address + front.length
    · rw [if_neg (by omega), if_pos (by omega), if_pos (by omega),
        List.getD_append _ _ _ _ (by omega)]
    · by_cases inBack : a < address + front.length + back.length
      · rw [if_pos (by omega), if_pos (by omega), List.getD_append_right _ _ _ _ (by omega),
          Nat.sub_add_eq]
      · rw [if_neg (by omega), if_neg (by omega), if_neg (by omega)]

/-- What is written can be read. -/
theorem readBytes_writeBytes :
    readBytes (writeBytes memory address front) address front.length = front := by
  -- Both lists have the same byte at each offset.
  apply List.ext_getElem length_readBytes
  intro offset below inside
  have byte := @writeBytes_of_inside memory address front offset inside
  rw [← List.getD_eq_getElem _ 0 below, readBytes_getD inside, byte, List.getD_eq_getElem _ _ inside]

/-- Writing what is there already changes nothing. -/
theorem writeBytes_of_read (there : readBytes memory address front.length = front) :
    writeBytes memory address front = memory := by
  -- A byte in the range is one of those that were read.
  funext a
  by_cases inside : address ≤ a ∧ a < address + front.length
  · obtain ⟨offset, rfl⟩ := Nat.exists_eq_add_of_le inside.1
    have below : offset < front.length := by omega
    have byte := @readBytes_getD memory address _ _ below
    rw [there] at byte
    rw [writeBytes_of_inside below, byte]
  · exact writeBytes_of_outside (by omega)

/-- Reading two pieces one behind the other is reading the whole. -/
theorem readBytes_append : readBytes memory address (width + span) =
    readBytes memory address width ++ readBytes memory (address + width) span := by
  -- The offsets of the second piece follow those of the first.
  simp [readBytes, List.range_add, Nat.add_assoc]

/-- What is read depends only on the bytes of the range. -/
theorem readBytes_congr {other : Memory} {target : Nat}
    (same : ∀ offset < width, other (target + offset) = memory (address + offset)) :
    readBytes other target width = readBytes memory address width := by
  -- The two lists agree at every offset.
  apply List.map_congr_left
  intro offset member
  exact same offset (List.mem_range.mp member)

end Memory

/-- Which block holds each piece of a sequence, in the order of the pieces. -/
abbrev BlockMap := Nat → Option Nat

namespace BlockMap

/-- The address that holds a position of the sequence. -/
def place (blocks : BlockMap) (size position : Nat) : Option Nat :=
  (blocks (position / size)).map fun block => block * size + position % size

/-- The sequence itself; a position without a block reads as zero. -/
def view (blocks : BlockMap) (size : Nat) (memory : Memory) : Memory := fun position =>
  ((blocks.place size position).map memory).getD 0

/-- Different pieces lie in different blocks. -/
def Distinct (blocks : BlockMap) : Prop :=
  ∀ piece other block, blocks piece = some block → blocks other = some block → piece = other

variable {blocks : BlockMap} {size piece block offset position width : Nat} {memory : Memory}
  {bytes : List UInt8}

/-- A position is given by its piece and its offset in there. -/
theorem div_mod_of_offset (inside : offset < size) :
    (piece * size + offset) / size = piece ∧ (piece * size + offset) % size = offset := by
  have positive : 0 < size := by omega
  rw [Nat.mul_comm, Nat.mul_add_div positive, Nat.mul_add_mod, Nat.div_eq_of_lt inside,
    Nat.mod_eq_of_lt inside]
  exact ⟨rfl, rfl⟩

/-- A position of a piece lies at the same offset of its block. -/
theorem place_of_piece (held : blocks piece = some block) (inside : offset < size) :
    blocks.place size (piece * size + offset) = some (block * size + offset) := by
  obtain ⟨quotient, rest⟩ := @div_mod_of_offset size piece offset inside
  rw [place, quotient, rest, held]
  rfl

/-- The byte at a position of a piece is the one in its block. -/
theorem view_of_piece (held : blocks piece = some block) (inside : offset < size) :
    blocks.view size memory (piece * size + offset) = memory (block * size + offset) := by
  rw [view, place_of_piece held inside]
  rfl

/-- Copying out of one block reads that stretch of the sequence. -/
theorem readBytes_of_piece (held : blocks piece = some block) (fits : offset + width ≤ size) :
    memory.readBytes (block * size + offset) width =
      (blocks.view size memory).readBytes (piece * size + offset) width := by
  -- Each byte of the stretch is at the same offset in the block.
  apply Memory.readBytes_congr
  intro place below
  rw [Nat.add_assoc, Nat.add_assoc, view_of_piece held (by omega)]

/-- Copying into one block writes that stretch of the sequence, and nothing else of it. -/
theorem view_writeBytes_of_piece (distinct : blocks.Distinct) (held : blocks piece = some block)
    (fits : offset + bytes.length ≤ size) :
    blocks.view size (memory.writeBytes (block * size + offset) bytes) =
      (blocks.view size memory).writeBytes (piece * size + offset) bytes := by
  funext position
  rcases Nat.eq_zero_or_pos size with none | positive
  · -- Blocks without bytes leave nothing to write.
    obtain ⟨rfl, rfl⟩ : offset = 0 ∧ bytes = [] := by
      rw [← List.length_eq_zero_iff]
      omega
    rw [Memory.writeBytes_nil, Memory.writeBytes_nil]
  -- The position is an offset in a piece, which is the one that is written or another one.
  obtain ⟨other, inner, rfl, inside⟩ :
      ∃ other inner, position = other * size + inner ∧ inner < size :=
    ⟨position / size, position % size, (Nat.div_add_mod' position size).symm,
      Nat.mod_lt _ positive⟩
  by_cases same : other = piece
  · -- Inside the piece, both ranges are shifted by the same amount.
    subst same
    rw [view_of_piece held inside]
    simp only [Memory.writeBytes, view_of_piece held inside, Nat.add_assoc,
      Nat.add_le_add_iff_left, Nat.add_lt_add_iff_left, Nat.add_sub_add_left]
  · -- A position of another piece is outside the written stretch, and so is its address.
    have apart : ∀ {first second : Nat}, first ≠ second →
        first * size + inner < second * size + offset ∨
          second * size + offset + bytes.length ≤ first * size + inner := by
      intro first second differ
      rcases Nat.lt_or_gt_of_ne differ with below | above
      · have := Nat.mul_le_mul_right size (Nat.succ_le_of_lt below)
        rw [Nat.succ_mul] at this
        omega
      · have := Nat.mul_le_mul_right size (Nat.succ_le_of_lt above)
        rw [Nat.succ_mul] at this
        omega
    rw [Memory.writeBytes_of_outside (apart same)]
    cases found : blocks other with
    | none =>
      obtain ⟨quotient, -⟩ := @div_mod_of_offset size other inner inside
      simp [view, place, quotient, found]
    | some target =>
      have differ : target ≠ block := fun equal => same (distinct _ _ _ (equal ▸ found) held)
      rw [view_of_piece found inside, view_of_piece found inside,
        Memory.writeBytes_of_outside (apart differ)]

/-- Copying into one block changes no byte of another block. -/
theorem writeBytes_of_other_block (fits : offset + bytes.length ≤ size)
    (other : position / size ≠ block) :
    memory.writeBytes (block * size + offset) bytes position = memory position := by
  -- Positions of another block lie before its first or behind its last byte.
  rcases Nat.eq_zero_or_pos size with rfl | positive
  · exact Memory.writeBytes_of_outside (by omega)
  apply Memory.writeBytes_of_outside
  rcases Nat.lt_or_gt_of_ne other with below | above
  · have := (Nat.div_lt_iff_lt_mul positive).mp below
    omega
  · have := (Nat.le_div_iff_mul_le positive).mp (Nat.succ_le_of_lt above)
    rw [Nat.succ_mul] at this
    omega

end BlockMap

end Foundations
