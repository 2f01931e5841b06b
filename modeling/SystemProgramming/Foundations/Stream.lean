import SystemProgramming.Foundations.ByteMemory

/-! Byte streams: numbers in them, and how a system call moves a piece of one. -/

namespace Foundations

/-- The little-endian bytes of a number. -/
def littleEndian (width value : Nat) : List UInt8 :=
  (List.range width).map fun i => UInt8.ofNat (value / 256 ^ i)

/-- The number that little-endian bytes stand for. -/
def ofLittleEndian (bytes : List UInt8) : Nat :=
  Memory.load (fun i => bytes.getD i 0) 0 bytes.length

variable {width value : Nat}

@[simp] theorem length_littleEndian : (littleEndian width value).length = width := by
  simp [littleEndian]

/-- The bytes of a number stand for what fits in them. -/
theorem ofLittleEndian_littleEndian :
    ofLittleEndian (littleEndian width value) = value % 256 ^ width := by
  -- The bytes are the base-256 digits of the number.
  rw [ofLittleEndian, length_littleEndian]
  apply Memory.load_of_digits
  intro i below
  simp [littleEndian, List.getD_eq_getElem?_getD, below]

/-- The bytes of the number that bytes stand for are these bytes again. -/
theorem littleEndian_ofLittleEndian (bytes : List UInt8) :
    littleEndian bytes.length (ofLittleEndian bytes) = bytes := by
  apply List.ext_getElem
  · simp
  · intro i _ inside
    simp only [littleEndian, List.getElem_map, List.getElem_range]
    rw [ofLittleEndian, Memory.digit_load inside, Nat.zero_add, List.getD_eq_getElem?_getD,
      List.getElem?_eq_getElem inside, Option.getD_some]

/-- Bytes stand for a number that fits in them. -/
theorem ofLittleEndian_lt (bytes : List UInt8) : ofLittleEndian bytes < 256 ^ bytes.length :=
  Memory.load_lt _ _ _

section Pieces

variable {stream : List UInt8} {count piece : Nat}

/-- What is left behind a piece does not depend on how its length is said. -/
theorem drop_taken : stream.drop (stream.take piece).length = stream.drop piece := by
  -- The piece is the rest of the stream, or it has the length that was asked for.
  rcases Nat.le_total stream.length piece with short | long
  · rw [List.take_of_length_le short, List.drop_length, List.drop_eq_nil_of_le short]
  · rw [List.length_take, Nat.min_eq_left long]

/-- A piece and what is taken behind it is what is taken at once, and what is left is the same. -/
theorem pieces_of_take (within : piece ≤ count) :
    stream.take piece ++ (stream.drop (stream.take piece).length).take
        (count - (stream.take piece).length) = stream.take count ∧
      (stream.drop (stream.take piece).length).drop (count - (stream.take piece).length) =
        stream.drop count := by
  rcases Nat.le_total stream.length piece with short | long
  · -- The piece is the whole stream.
    rw [List.take_of_length_le short, List.drop_length, List.take_nil, List.drop_nil,
      List.append_nil, List.take_of_length_le (by omega), List.drop_eq_nil_of_le (by omega)]
    exact ⟨rfl, rfl⟩
  · rw [List.length_take, Nat.min_eq_left long, ← List.take_add, List.drop_drop,
      Nat.add_sub_of_le within]
    exact ⟨rfl, rfl⟩

/-- A piece and what is left behind it are the whole. -/
theorem piece_append_drop : stream.take piece ++ stream.drop (stream.take piece).length = stream := by
  rw [drop_taken, List.take_append_drop]

end Pieces

/-- What a call does that is asked to move bytes to or from a socket. -/
inductive Fragment where
  /-- A signal arrived first: -1, with `EINTR`. -/
  | interrupted
  /-- Any other error: -1. -/
  | failed
  /-- At least one byte, and at most this number more, if there is any byte to move. -/
  | moves (more : Nat)
  deriving DecidableEq, Repr

/-- No call fails for another reason than a signal. -/
def Unbroken (fragments : List Fragment) : Prop := Fragment.failed ∉ fragments

instance decidableUnbroken (fragments : List Fragment) : Decidable (Unbroken fragments) :=
  inferInstanceAs (Decidable (_ ∉ _))

/-- Calls that follow others are unbroken if all are. -/
theorem Unbroken.tail {first : Fragment} {rest : List Fragment}
    (unbroken : Unbroken (first :: rest)) : Unbroken rest := fun member =>
  unbroken (List.mem_cons_of_mem _ member)

end Foundations
