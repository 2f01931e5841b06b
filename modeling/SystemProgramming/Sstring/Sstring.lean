import SystemProgramming.Foundations.Runs
import SystemProgramming.Foundations.Strings

/-! Strings that know their length: a pool of them, in a heap. -/

namespace SystemProgramming.Sstring

open Foundations Foundations.Strings

/-- A `struct sstring`: the block of its characters, and its length. -/
structure Sstring where
  s : Nat
  length : Nat
  deriving DecidableEq, Repr

/-- The heap, and the sstrings that were made. -/
structure State where
  heap : Heap
  members : List Sstring

/-- A `size_t` that is returned as an `int`. -/
def asInt (value : Nat) : Int := (BitVec.ofNat 32 value).toInt

/-- `cstr_to_sstring`. -/
def cstrToSstring (input : List UInt8) (heap : Heap) : Option (Sstring × Heap) :=
  let allocated := heap.malloc (input.length + 1)
  (allocated.2.strcpy allocated.1 0 input).map fun heap => (⟨allocated.1, input.length⟩, heap)

/-- `sstring_to_cstr`. -/
def sstringToCstr (input : Sstring) (heap : Heap) : Option (Nat × Heap) :=
  let allocated := heap.malloc (input.length + 1)
  (allocated.2.string input.s 0).bind fun characters =>
    (allocated.2.strcpy allocated.1 0 characters).map fun heap => (allocated.1, heap)

/-- `sstring_append`. -/
def sstringAppend (i j : Nat) (st : State) : Option (Int × State) := do
  let this ← st.members[i]?
  let addition ← st.members[j]?
  let length := this.length + addition.length
  let (s, heap) ← st.heap.realloc this.s (length + 1)
  let members := st.members.set i ⟨s, length⟩
  -- If it is the same sstring, its characters have moved before they are read.
  let addition ← members[j]?
  let heap ← heap.strcat s addition.s
  some (asInt length, ⟨heap, members⟩)

/-- `sstring_substitute`, of an sstring that is there; `none` is `NULL`. -/
def sstringSubstitute (i offset : Nat) (target substitution : Option (List UInt8)) (st : State) :
    Option (Int × State) :=
  match target, substitution with
  | some target, some substitution => do
    let this ← st.members[i]?
    let searched ← st.heap.string this.s offset
    match strstr searched target with
    | none => some (-1, st)
    | some place =>
      let lenBeforeTarget := offset + place
      let newLength := this.length - target.length + substitution.length
      let (newString, heap) := st.heap.malloc (newLength + 1)
      let whole ← heap.string this.s 0
      let heap ← heap.strncpy newString 0 whole lenBeforeTarget
      let heap ← heap.strncpy newString lenBeforeTarget substitution substitution.length
      let foundTarget ← heap.string this.s (lenBeforeTarget + target.length)
      let heap ← heap.strcpy newString (lenBeforeTarget + substitution.length) foundTarget
      some (0, ⟨heap.free this.s, st.members.set i ⟨newString, newLength⟩⟩)
  | _, _ => some (-1, st)

/-- A call of an sstring function; sstrings are named by when they were made. -/
inductive Operation where
  | create (input : List UInt8)
  | toCstr (input : Nat)
  | append (this addition : Nat)
  | substitute (this offset : Nat) (target substitution : Option (List UInt8))
  deriving DecidableEq, Repr

/-- What a call returns: the sstring that was made, a block of the caller, or a number. -/
inductive Reply where
  | made (member : Nat)
  | block (address : Nat)
  | number (value : Int)
  deriving DecidableEq, Repr

/-- What a call does. -/
def execute (st : State) : Operation → Option (Reply × State)
  | .create input => (cstrToSstring input st.heap).map fun (made, heap) =>
      (.made st.members.length, ⟨heap, st.members ++ [made]⟩)
  | .toCstr i => do
    let input ← st.members[i]?
    let (temp, heap) ← sstringToCstr input st.heap
    some (.block temp, ⟨heap, st.members⟩)
  | .append i j => (sstringAppend i j st).map fun (value, st) => (.number value, st)
  | .substitute i offset target substitution =>
    (sstringSubstitute i offset target substitution st).map fun (value, st) => (.number value, st)

/-- At first there are no sstrings. -/
def start : State where
  heap := ⟨fun _ => none, 0⟩
  members := []

/--
What a caller has to give: strings without a zero byte, sstrings that were made, and an offset in
one.
-/
def Operation.Valid (st : State) : Operation → Prop
  | create input => (0 : UInt8) ∉ input
  | toCstr i => i < st.members.length
  | append i j => i < st.members.length ∧ j < st.members.length
  | substitute i offset target substitution =>
    (∃ this, st.members[i]? = some this ∧ offset ≤ this.length) ∧
      (∀ characters, target = some characters → (0 : UInt8) ∉ characters) ∧
      ∀ characters, substitution = some characters → (0 : UInt8) ∉ characters

/-- A step is a valid call that returns. -/
def Step (st : State) (operation : Operation) (st' : State) : Prop :=
  operation.Valid st ∧ ∃ reply, execute st operation = some (reply, st')

end SystemProgramming.Sstring
