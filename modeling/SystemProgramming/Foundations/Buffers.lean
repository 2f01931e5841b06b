import Mathlib.Data.List.TakeDrop
import SystemProgramming.Foundations.Strings

/-! Buffers that keep what is stored behind their end, and note which indices were stored to. -/

namespace Foundations.Strings

/-- Storing a byte in a block, at an index that need not be in it. -/
def put (block : Block) (i : Nat) (byte : UInt8) : Block :=
  block.takeD i none ++ some byte :: block.drop (i + 1)

variable {front junk block rest : Block} {bytes source : List UInt8}
  {offset count size i j turns : Nat} {byte : UInt8}

/-- A byte that is stored behind the front of a block replaces what is there, if anything is. -/
theorem put_behind : put (front ++ junk) front.length byte = front ++ some byte :: junk.drop 1 := by
  -- What is taken for the part before the byte is the front.
  rw [put, List.takeD_left, List.drop_append, List.drop_eq_nil_of_le (by omega), List.nil_append]
  congr 3
  omega

/-- What lies before a byte that is stored stays there. -/
theorem getElem?_put_of_lt (before : j < i) (reaches : i ≤ block.length) :
    (put block i byte)[j]? = block[j]? := by
  rw [put, List.takeD_eq_take _ reaches, List.getElem?_append_left, List.getElem?_take_of_lt before]
  rw [List.length_take_of_le reaches]
  exact before

@[simp] theorem getElem?_put_self : (put block i byte)[i]? = some (some byte) := by
  rw [put, List.getElem?_append_right] <;> simp [List.takeD_length]

/-- A block becomes no shorter, and reaches behind the byte. -/
theorem lt_length_put : i < (put block i byte).length := by
  simp [put, List.takeD_length]

/-- A buffer: how many bytes were asked for, what it holds, and which indices were stored to. -/
structure Buffer where
  requested : Nat
  bytes : Block
  stores : List Nat
  deriving DecidableEq, Repr

namespace Buffer

/-- Every index that was stored to lies in what was asked for. -/
def Within (buffer : Buffer) : Prop := ∀ i ∈ buffer.stores, i < buffer.requested

instance (buffer : Buffer) : Decidable buffer.Within :=
  inferInstanceAs (Decidable (∀ i ∈ buffer.stores, i < buffer.requested))

/-- `malloc`. -/
def malloc (size : Nat) : Buffer := ⟨size, List.replicate size none, []⟩

/-- `realloc` of a block, whose bytes are kept, as many as fit. -/
def realloc (block : Block) (size : Nat) : Buffer :=
  ⟨size, block.take size ++ List.replicate (size - block.length) none, []⟩

/-- An assignment to a byte. -/
def store (i : Nat) (byte : UInt8) (buffer : Buffer) : Buffer :=
  { buffer with bytes := put buffer.bytes i byte, stores := buffer.stores ++ [i] }

/-- Assignments to bytes from an offset on. -/
def write : Nat → List UInt8 → Buffer → Buffer
  | _, [], buffer => buffer
  | offset, byte :: rest, buffer => write (offset + 1) rest (buffer.store offset byte)

/-- `strcpy` of a string that lies elsewhere. -/
def strcpy (offset : Nat) (source : List UInt8) (buffer : Buffer) : Buffer :=
  buffer.write offset (source ++ [0])

/-- `strncpy` of a string that lies elsewhere: zero bytes fill up what it does not. -/
def strncpy (offset : Nat) (source : List UInt8) (count : Nat) (buffer : Buffer) : Buffer :=
  buffer.write offset (source.take count ++ List.replicate (count - source.length) 0)

/--
The first turns of the loop of `strcat`, which reads each byte only when it copies it. What is copied
may be the buffer itself.
-/
def copyString : Nat → (Buffer → Block) → Nat → Nat → Buffer → Option Buffer
  | 0, _, _, _, buffer => some buffer
  | turns + 1, source, i, j, buffer =>
    match (source buffer)[i]?.join with
    | some byte =>
      if byte = 0 then some (buffer.store j byte)
      else copyString turns source (i + 1) (j + 1) (buffer.store j byte)
    | none => none

/-- `strcat`, after so many turns of its loop. -/
def strcat (turns : Nat) (source : Buffer → Block) (buffer : Buffer) : Option Buffer :=
  (text buffer.bytes).bind fun start => copyString turns source 0 start.length buffer

variable {buffer : Buffer}

section Contents

@[simp] theorem requested_store : (buffer.store i byte).requested = buffer.requested := rfl

@[simp] theorem stores_store : (buffer.store i byte).stores = buffer.stores ++ [i] := rfl

@[simp] theorem requested_write : (buffer.write offset bytes).requested = buffer.requested := by
  induction bytes generalizing buffer offset with
  | nil => rfl
  | cons byte bytes ih => rw [write, ih, requested_store]

/-- The indices of the bytes are stored to one after the other. -/
theorem stores_write :
    (buffer.write offset bytes).stores = buffer.stores ++ List.range' offset bytes.length := by
  induction bytes generalizing buffer offset with
  | nil => simp [write]
  | cons byte bytes ih => simp [write, ih, List.range'_succ]

/-- Bytes are stored behind others as all of them are. -/
theorem write_append {more : List UInt8} : buffer.write offset (bytes ++ more) =
    (buffer.write offset bytes).write (offset + bytes.length) more := by
  induction bytes generalizing buffer offset with
  | nil => rfl
  | cons byte bytes ih =>
    rw [List.cons_append, write, write, ih, List.length_cons, Nat.add_assoc, Nat.add_comm 1]

/-- Bytes that are stored behind the front of a block replace what is there. -/
theorem bytes_write (bytes : List UInt8) (holds : buffer.bytes = front ++ junk) :
    (buffer.write front.length bytes).bytes =
      front ++ bytes.map some ++ junk.drop bytes.length := by
  -- The bytes that were stored become part of the front.
  induction bytes generalizing buffer front junk with
  | nil => simp [write, holds]
  | cons byte bytes ih =>
    have stored : (buffer.store front.length byte).bytes = (front ++ [some byte]) ++ junk.drop 1 := by
      rw [store, holds, put_behind]
      simp
    have next := ih stored
    rw [List.length_append, List.length_singleton] at next
    rw [write, next]
    simp

@[simp] theorem requested_strncpy :
    (buffer.strncpy offset source count).requested = buffer.requested := requested_write

/-- A string and its zero byte are left in a buffer that is made larger. -/
theorem bytes_realloc {characters : List UInt8} {more : Nat} :
    ∃ room, (realloc (characters.map some ++ some 0 :: rest) (characters.length + more + 1)).bytes =
      characters.map some ++ some 0 :: room := by
  obtain ⟨room, _, kept⟩ := @resized_larger rest characters more
  exact ⟨room, kept⟩

/-- All of a new buffer is filled with the characters of a string that is long enough. -/
theorem bytes_strncpy_malloc (enough : count ≤ source.length) :
    ((malloc count).strncpy 0 source count).bytes = (source.take count).map some := by
  -- The string is long enough, so that no zero bytes are stored.
  have new : (malloc count).bytes = [] ++ List.replicate count none := rfl
  have filled := bytes_write (source.take count ++ List.replicate (count - source.length) 0) new
  rw [List.length_nil] at filled
  rw [strncpy, filled, Nat.sub_eq_zero_of_le enough]
  simp [enough]

end Contents

section Within

@[simp] theorem within_malloc : (malloc size).Within := by simp [Within, malloc]

@[simp] theorem within_realloc : (realloc block size).Within := by simp [Within, realloc]

/-- A store is inside if its index is. -/
theorem within_store_iff : (buffer.store i byte).Within ↔ buffer.Within ∧ i < buffer.requested := by
  simp [Within, or_imp, forall_and]

/-- Bytes that fit behind the offset stay inside. -/
theorem Within.write (within : buffer.Within) (fits : offset + bytes.length ≤ buffer.requested) :
    (buffer.write offset bytes).Within := by
  -- An index was stored to before, or is one of the new ones.
  intro i member
  rw [stores_write, List.mem_append, List.mem_range'_1] at member
  rw [requested_write]
  rcases member with before | ⟨_, below⟩
  · exact within i before
  · omega

theorem Within.strcpy (within : buffer.Within) (fits : offset + source.length < buffer.requested) :
    (buffer.strcpy offset source).Within :=
  within.write (by rw [List.length_append, List.length_singleton]; omega)

theorem Within.strncpy (within : buffer.Within) (fits : offset + count ≤ buffer.requested) :
    (buffer.strncpy offset source count).Within := by
  refine within.write ?_
  rw [List.length_append, List.length_take, List.length_replicate]
  omega

end Within

section Strcat

/-- A string in a block of its own is copied up to its zero byte, and not further. -/
theorem Within.copyString_apart (within : buffer.Within)
    (fits : j + source.length < buffer.requested) :
    ∃ after, copyString turns (fun _ => front ++ (source.map some ++ some 0 :: rest)) front.length j
      buffer = some after ∧ after.Within := by
  -- The characters that were copied become part of the front.
  induction turns generalizing front source j buffer with
  | zero => exact ⟨buffer, rfl, within⟩
  | succ turns ih =>
    cases source with
    | nil =>
      refine ⟨buffer.store j 0, by simp [copyString], within_store_iff.mpr ⟨within, ?_⟩⟩
      simpa using fits
    | cons byte source =>
      rw [List.length_cons] at fits
      have stored : (buffer.store j byte).Within := within_store_iff.mpr ⟨within, by omega⟩
      by_cases zero : byte = 0
      · exact ⟨_, by simp [copyString, zero], zero ▸ stored⟩
      · have later : ∃ after, copyString turns
            (fun _ => (front ++ [some byte]) ++ (source.map some ++ some 0 :: rest))
            (front ++ [some byte]).length (j + 1) (buffer.store j byte) = some after ∧
              after.Within := ih stored (by rw [requested_store]; omega)
        simpa [copyString, zero] using later

/-- Where the bytes between what is read and what is written are not zero, the copy does not end. -/
theorem stores_copyString_self (turns : Nat) (ordered : i < j) (reaches : j ≤ buffer.bytes.length)
    (nonzero : ∀ k, i ≤ k → k < j → ∃ byte, byte ≠ 0 ∧ buffer.bytes[k]? = some (some byte)) :
    ∃ after, copyString turns Buffer.bytes i j buffer = some after ∧
      after.requested = buffer.requested ∧
      after.stores = buffer.stores ++ List.range' j turns := by
  induction turns generalizing i j buffer with
  | zero => exact ⟨buffer, rfl, rfl, by simp⟩
  | succ turns ih =>
    obtain ⟨byte, other, read⟩ := nonzero i (Nat.le_refl i) ordered
    have inside : j < (buffer.store j byte).bytes.length := lt_length_put
    -- The byte that is written is the one that was read, so that there is no zero byte yet.
    have later : ∀ k, i + 1 ≤ k → k < j + 1 →
        ∃ more, more ≠ 0 ∧ (buffer.store j byte).bytes[k]? = some (some more) := by
      intro k lower upper
      rcases Nat.lt_or_ge k j with before | last
      · rw [store, getElem?_put_of_lt before reaches]
        exact nonzero k (by omega) before
      · obtain rfl : k = j := by omega
        exact ⟨byte, other, getElem?_put_self⟩
    obtain ⟨after, done, requested, stores⟩ := ih (Nat.succ_lt_succ ordered) inside later
    refine ⟨after, ?_, requested, ?_⟩
    · rw [copyString, read, Option.join_some]
      simp only [if_neg other, done]
    · rw [stores, stores_store, List.append_assoc, List.range'_succ]
      rfl

/-- So a string that is appended to itself is stored behind itself, index after index. -/
theorem stores_append_self {characters : List UInt8} (turns : Nat)
    (holds : buffer.bytes = characters.map some ++ some 0 :: rest) (plain : (0 : UInt8) ∉ characters)
    (nonempty : characters ≠ []) :
    ∃ after, copyString turns Buffer.bytes 0 characters.length buffer = some after ∧
      after.requested = buffer.requested ∧
      after.stores = buffer.stores ++ List.range' characters.length turns := by
  -- The characters in front of the zero byte are not zero.
  refine stores_copyString_self turns (List.length_pos_of_ne_nil nonempty) ?_ ?_
  · rw [holds, List.length_append, List.length_map]
    exact Nat.le_add_right _ _
  · intro k _ below
    refine ⟨characters[k], fun zero => plain (zero ▸ List.getElem_mem below), ?_⟩
    rw [holds, List.getElem?_append_left (by rwa [List.length_map]), List.getElem?_map,
      List.getElem?_eq_getElem below]
    rfl

/-- Without characters, only the zero byte is copied, to where it was. -/
theorem Within.copyString_empty (within : buffer.Within) (fits : 0 < buffer.requested)
    (holds : buffer.bytes = some 0 :: rest) :
    ∃ after, copyString turns Buffer.bytes 0 0 buffer = some after ∧ after.Within := by
  cases turns with
  | zero => exact ⟨buffer, rfl, within⟩
  | succ turns =>
    refine ⟨buffer.store 0 0, by simp [copyString, holds], ?_⟩
    exact within_store_iff.mpr ⟨within, fits⟩

end Strcat

end Buffer

end Foundations.Strings
