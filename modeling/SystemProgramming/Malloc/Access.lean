import SystemProgramming.Malloc.Alloc
import SystemProgramming.Foundations.Linked

/-! Field access laws of the heap, and the three list edits that the allocator makes with them. -/

namespace SystemProgramming.Malloc

open Foundations

/-- A sum that fits in 64 bits is computed exactly. -/
@[simp] theorem wrap_of_lt {value : Nat} (fits : value < 2 ^ 64) : wrap value = value :=
  Nat.mod_eq_of_lt fits

/-- A difference of 64-bit numbers that does not go below zero is computed exactly. -/
theorem wrapSub_of_le {left right : Nat} (fits : left < 2 ^ 64) (le : right ≤ left) :
    wrapSub left right = left - right := by
  -- The borrow of 2^64 is taken back by the final reduction.
  simp only [wrapSub]
  omega

/-- Two header addresses are equal or their headers do not overlap. -/
def Apart (node other : Nat) : Prop :=
  node = other ∨ node + 32 ≤ other ∨ other + 32 ≤ node

/-- Every field lies inside the header. -/
theorem Field.inside (field : Field) : field.offset + field.width ≤ 32 := by
  cases field <;> decide

/-- Different fields of one header do not overlap. -/
theorem Field.disjoint {field other : Field} (differ : field ≠ other) :
    field.offset + field.width ≤ other.offset ∨ other.offset + other.width ≤ field.offset := by
  cases field <;> cases other <;> first | exact absurd rfl differ | decide

namespace Heap

variable {h : Heap} {field other : Field} {node target address value : Nat}

/-- What a header field can hold. -/
theorem get_lt (h : Heap) (field : Field) (node : Nat) : h.get field node < 2 ^ 64 := by
  -- The widest field has eight bytes.
  have bound := h.mem.load_lt (node + field.offset) field.width
  cases field <;> simp only [Field.width] at bound <;> exact Nat.lt_of_lt_of_le bound (by decide)

@[simp] theorem set_brk : (h.set field node value).brk = h.brk := rfl
@[simp] theorem set_start : (h.set field node value).start = h.start := rfl
@[simp] theorem set_head : (h.set field node value).head = h.head := rfl
@[simp] theorem set_floor : (h.set field node value).floor = h.floor := rfl
@[simp] theorem set_limit : (h.set field node value).limit = h.limit := rfl
@[simp] theorem setTag_brk : (h.setTag address value).brk = h.brk := rfl
@[simp] theorem setTag_start : (h.setTag address value).start = h.start := rfl
@[simp] theorem setTag_head : (h.setTag address value).head = h.head := rfl
@[simp] theorem setTag_floor : (h.setTag address value).floor = h.floor := rfl
@[simp] theorem setTag_limit : (h.setTag address value).limit = h.limit := rfl

/-- A field that was just written reads back. -/
theorem get_set_same (field : Field) : (h.set field node value).get field node =
    value % 256 ^ field.width := Memory.load_store_same

/-- Writing one field leaves the other fields of all headers, and the field elsewhere, alone. -/
theorem get_set_other (apart : Apart node target) (differ : other ≠ field ∨ target ≠ node) :
    (h.set other target value).get field node = h.get field node := by
  have inside := field.inside
  have otherInside := other.inside
  refine Memory.load_store_of_disjoint ?_
  rcases apart with same | away
  · -- Within one header the two fields differ, so they lie apart.
    subst same
    have := Field.disjoint (differ.resolve_right (fun ne => ne rfl))
    omega
  · omega

/-- Both cases of a read after a write, for the full-width fields. -/
theorem get_set (apart : Apart node target) (fits : value < 256 ^ field.width) :
    (h.set other target value).get field node =
      if other = field ∧ target = node then value else h.get field node := by
  split
  · -- The field that was written reads the value, since it fits.
    rename_i same
    rw [same.1, same.2, get_set_same, Nat.mod_eq_of_lt fits]
  · rename_i differ
    exact get_set_other apart (by grind)

/-- A tag outside a header is not seen through its fields. -/
theorem get_setTag (outside : address + 8 ≤ node ∨ node + 32 ≤ address) :
    (h.setTag address value).get field node = h.get field node := by
  -- Every field lies inside its header, and the tag lies outside.
  have inside := field.inside
  exact Memory.load_store_of_disjoint (by unfold dataSizeSize; omega)

/-- A header outside a tag does not change it. -/
theorem tag_set (outside : address + 8 ≤ node ∨ node + 32 ≤ address) :
    (h.set field node value).tag address = h.tag address := by
  have inside := field.inside
  exact Memory.load_store_of_disjoint (by unfold dataSizeSize; omega)

/-- A tag that was just written reads back. -/
theorem tag_setTag_same (fits : value < 2 ^ 64) : (h.setTag address value).tag address = value := by
  simp only [tag, setTag, Memory.load_store_same]
  exact Nat.mod_eq_of_lt fits

/-- Writing one tag leaves a tag that does not overlap it alone. -/
theorem tag_setTag_other {place : Nat}
    (outside : address + 8 ≤ place ∨ place + 8 ≤ address) :
    (h.setTag address value).tag place = h.tag place :=
  Memory.load_store_of_disjoint (by unfold dataSizeSize; omega)

/-- A field write stays inside its field. -/
theorem mem_set (outside : address < node + field.offset ∨
    node + field.offset + field.width ≤ address) :
    (h.set field node value).mem address = h.mem address :=
  Memory.store_of_outside outside

/-- A tag write stays inside its tag. -/
theorem mem_setTag {place : Nat} (outside : place < address ∨ address + 8 ≤ place) :
    (h.setTag address value).mem place = h.mem place :=
  Memory.store_of_outside outside

end Heap

/-- The same process around the bytes: only the memory and `head` may differ. -/
structure SameProcess (h h' : Heap) : Prop where
  brk : h'.brk = h.brk
  start : h'.start = h.start
  floor : h'.floor = h.floor
  limit : h'.limit = h.limit

/-- No byte changes outside `[lower, upper)` and the link fields of the given nodes. -/
def Untouched (nodes : List Nat) (lower upper : Nat) (h h' : Heap) : Prop :=
  ∀ address, address < lower ∨ upper ≤ address →
    (∀ node ∈ nodes, address < node + 8 ∨ node + 24 ≤ address) → h'.mem address = h.mem address

/-- The free list as the program walks it: linked both ways from `head`. -/
structure FreeLinks (h : Heap) (list : List Nat) : Prop where
  linked : Linked (h.get .before) (h.get .after) null null list
  head : h.head = list.headD null

/-- Addresses that can be the nodes of one free list: distinct headers inside the address space. -/
structure Nodes (list : List Nat) : Prop where
  distinct : list.Nodup
  low : ∀ node ∈ list, 32 ≤ node
  bounded : ∀ node ∈ list, node < 2 ^ 64
  apart : ∀ node ∈ list, ∀ other ∈ list, Apart node other

end SystemProgramming.Malloc
