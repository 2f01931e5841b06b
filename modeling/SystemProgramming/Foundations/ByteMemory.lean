import Mathlib.Data.Nat.ModEq
import Mathlib.Tactic.Ring

/-! Byte-addressed memory: little-endian words, block copies, and what a write leaves alone. -/

namespace Foundations

/-- A flat memory holds one byte at every address. -/
abbrev Memory := Nat → UInt8

namespace Memory

/-- The little-endian number in the `width` bytes from `address` on. -/
def load (memory : Memory) (address : Nat) : Nat → Nat
  | 0 => 0
  | width + 1 => (memory address).toNat + 256 * load memory (address + 1) width

/-- Writing a number over `width` bytes keeps only what fits in them. -/
def store (memory : Memory) (address width value : Nat) : Memory := fun a =>
  if address ≤ a ∧ a < address + width then UInt8.ofNat (value / 256 ^ (a - address))
  else memory a

/-- Setting a range of bytes to one value. -/
def fill (memory : Memory) (address width : Nat) (byte : UInt8) : Memory := fun a =>
  if address ≤ a ∧ a < address + width then byte else memory a

/-- Copying a range of bytes, read before anything is written. -/
def copy (memory : Memory) (target source width : Nat) : Memory := fun a =>
  if target ≤ a ∧ a < target + width then memory (source + (a - target)) else memory a

/-- Copying bytes out of memory. -/
def readBytes (memory : Memory) (address width : Nat) : List UInt8 :=
  (List.range width).map fun offset => memory (address + offset)

/-- Copying bytes into memory. -/
def writeBytes (memory : Memory) (address : Nat) (bytes : List UInt8) : Memory := fun a =>
  if address ≤ a ∧ a < address + bytes.length then bytes.getD (a - address) 0 else memory a

variable {memory other : Memory} {address target width span value a : Nat} {byte : UInt8}

/-- A load depends only on the bytes it covers. -/
theorem load_congr (same : ∀ a, address ≤ a → a < address + width → other a = memory a) :
    load other address width = load memory address width := by
  -- The recursion consumes one byte and moves to the next address.
  induction width generalizing address with
  | zero => rfl
  | succ width ih =>
    have rest := @ih (address + 1) fun a lower upper => same a (by omega) (by omega)
    simp only [load, rest, same address (by omega) (by omega)]

/-- A load of `width` bytes is below the corresponding power of 256. -/
theorem load_lt (memory : Memory) (address width : Nat) :
    load memory address width < 256 ^ width := by
  -- Each byte is below 256 and the rest is below the smaller power.
  induction width generalizing address with
  | zero => simp [load]
  | succ width ih =>
    have low := (memory address).toNat_lt
    have high := ih (address + 1)
    simp only [load, Nat.pow_succ]
    omega

/-- Loading the base-256 digits of a number gives back what fits in the width. -/
theorem load_of_digits (digits : ∀ i, i < width → memory (address + i) = UInt8.ofNat (value / 256 ^ i)) :
    load memory address width = value % 256 ^ width := by
  -- The first digit is the remainder by 256, and the others are the digits of the quotient.
  induction width generalizing address value with
  | zero => simp [load, Nat.mod_one]
  | succ width ih =>
    -- The byte at the address is the lowest digit of the number.
    have first : (memory address).toNat = value % 256 := by
      have head := digits 0 (by omega)
      simp only [Nat.add_zero, Nat.pow_zero, Nat.div_one] at head
      simp [head, UInt8.toNat_ofNat']
    -- The bytes behind it hold the digits of the quotient, so the hypothesis applies to them.
    have rest : load memory (address + 1) width = value / 256 % 256 ^ width := by
      refine ih fun i below => ?_
      have next := digits (i + 1) (by omega)
      rw [Nat.add_right_comm, Nat.add_assoc, next, Nat.pow_succ', Nat.div_div_eq_div_mul]
    rw [load, first, rest, Nat.pow_succ', Nat.mod_mul]

/-- The base-256 digits of a loaded number are the bytes it was loaded from. -/
theorem digit_load {i : Nat} (below : i < width) :
    UInt8.ofNat (load memory address width / 256 ^ i) = memory (address + i) := by
  -- The first byte is the remainder by 256, and the quotient is what the other bytes stand for.
  induction i generalizing address width with
  | zero =>
    obtain ⟨rest, rfl⟩ := Nat.exists_eq_add_of_lt below
    apply UInt8.toNat_inj.mp
    have small := (memory address).toNat_lt
    simp only [Nat.zero_add, load, Nat.pow_zero, Nat.div_one, UInt8.toNat_ofNat', Nat.add_zero]
    omega
  | succ i ih =>
    obtain ⟨rest, rfl⟩ := Nat.exists_eq_add_of_lt (Nat.zero_lt_of_lt below)
    simp only [Nat.zero_add] at below ⊢
    have small := (memory address).toNat_lt
    have shifted : load memory address (rest + 1) / 256 = load memory (address + 1) rest := by
      rw [load]
      omega
    rw [Nat.pow_succ', ← Nat.div_div_eq_div_mul, shifted, ih (by omega), Nat.add_right_comm,
      Nat.add_assoc]

/-- A stored number reads back as what fits in its width. -/
theorem load_store_same : load (store memory address width value) address width =
    value % 256 ^ width := by
  -- Inside the range, a store leaves exactly the base-256 digits of the number.
  refine load_of_digits fun i below => ?_
  simp [store, below]

/-- A store is invisible to every load that does not overlap it. -/
theorem load_store_of_disjoint (apart : target + span ≤ address ∨ address + width ≤ target) :
    load (store memory target span value) address width = load memory address width := by
  -- No byte of the load lies in the range of the store.
  refine load_congr fun a lower upper => ?_
  simp only [store]
  rw [if_neg (by omega)]

/-- A store changes no byte outside its range. -/
theorem store_of_outside (outside : a < address ∨ address + width ≤ a) :
    store memory address width value a = memory a := by
  -- The range condition of the store fails at the byte.
  simp only [store]
  rw [if_neg (by omega)]

/-- A fill changes no byte outside its range. -/
theorem fill_of_outside (outside : a < address ∨ address + width ≤ a) :
    fill memory address width byte a = memory a := by
  simp only [fill]
  rw [if_neg (by omega)]

/-- Inside its range, a fill leaves the byte it was given. -/
theorem fill_of_inside (lower : address ≤ a) (upper : a < address + width) :
    fill memory address width byte a = byte := by
  simp [fill, lower, upper]

/-- A copy changes no byte outside its target range. -/
theorem copy_of_outside {source : Nat} (outside : a < target ∨ target + width ≤ a) :
    copy memory target source width a = memory a := by
  simp only [copy]
  rw [if_neg (by omega)]

/-- Writing bytes changes no byte outside their range. -/
theorem writeBytes_of_outside {bytes : List UInt8}
    (outside : a < address ∨ address + bytes.length ≤ a) :
    writeBytes memory address bytes a = memory a := by
  simp only [writeBytes]
  rw [if_neg (by omega)]

/-- Inside their range, the bytes that were written can be read. -/
theorem writeBytes_of_inside {bytes : List UInt8} {offset : Nat} (inside : offset < bytes.length) :
    writeBytes memory address bytes (address + offset) = bytes.getD offset 0 := by
  -- The range condition holds, and the offset is what remains after the start is taken away.
  simp only [writeBytes]
  rw [if_pos (by omega), Nat.add_sub_cancel_left]

/-- The bytes that were copied out, by their offset. -/
theorem readBytes_getD {offset : Nat} (inside : offset < width) :
    (readBytes memory address width).getD offset 0 = memory (address + offset) := by
  -- The list holds one byte for each offset, in order.
  simp [readBytes, List.getD_eq_getElem?_getD, inside]

@[simp] theorem length_readBytes : (readBytes memory address width).length = width := by
  simp [readBytes]

/-- Loading from a range of zero bytes gives zero. -/
theorem load_zero (zeros : ∀ a, address ≤ a → a < address + width → memory a = 0) :
    load memory address width = 0 := by
  -- Every byte of the recursion contributes zero.
  induction width generalizing address with
  | zero => rfl
  | succ width ih =>
    have rest := @ih (address + 1) fun a lower upper => zeros a (by omega) (by omega)
    simp [load, rest, zeros address (by omega) (by omega)]

end Memory

end Foundations
