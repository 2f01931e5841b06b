import Mathlib.Order.Bounds.Basic
import SystemProgramming.Vector.Ownership

/-! The capacity that a vector grows to, and how many bytes are asked for. -/

namespace SystemProgramming.Vector

open Foundations

variable {Value : Type*} {callbacks : Callbacks Value} {st next : State Value} {n capacity bound : Nat}
  {granted : Bool}

/-- `realloc` of the array; if that fails, `NULL` is stored, in which there are no slots. -/
def State.reallocateWith (granted : Bool) (capacity : Nat) (st : State Value) : State Value :=
  if granted then st.reallocate capacity else { st with capacity := capacity, array := [] }

/-- `vector_resize`, where `realloc` may fail. -/
def vectorResizeWith (granted : Bool) (callbacks : Callbacks Value) (n : Nat) (st : State Value) :
    Option (State Value) :=
  if n ≤ st.size then
    (forUp State.destroyAt (n + 1) st.size st).map fun st => { st with size := n }
  else if n ≤ st.capacity then
    (forUp (State.defaultAt callbacks) st.size n st).map fun st => { st with size := n }
  else
    (getNewCapacity n).bind fun capacity =>
      (forUp (State.defaultAt callbacks) st.size n (st.reallocateWith granted capacity)).map
        fun st => { st with size := n }

theorem vectorResizeWith_true : vectorResizeWith true callbacks n st = vectorResize callbacks n st :=
  rfl

section Arithmetic

end Arithmetic

section Calls

@[simp] theorem size_reallocateWith : (st.reallocateWith granted capacity).size = st.size := by
  cases granted <;> rfl

end Calls

section Runs

variable {trace : List (Transition (State Value) (Operation (Object Value)))} {final : State Value}

end Runs

end SystemProgramming.Vector
