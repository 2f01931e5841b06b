import SystemProgramming.Vector.Ownership

/-! Calls that are given an element of the vector itself, and what is left of it when it is copied. -/

namespace SystemProgramming.Vector

open Foundations Foundations.Lifetimes

variable {Value : Type*} {callbacks : Callbacks Value} {st st' next : State Value} {i j n : Nat}
  {object : Object Value} {element : Element Value} {value : Value}
  {operation : Operation (Object Value)} {position : Nat} {Allows Permitted : Prop}

/-- What happened in between read nothing that was ended exactly under a condition. -/
def ReadsIf (st next : State Value) (Allows : Prop) : Prop :=
  ∃ new, next.lives = st.lives ++ new ∧ (ReadsAfter st.lives new ↔ Allows)

/-- In two parts, nothing is read that was ended where neither part does that. -/
theorem ReadsIf.trans (first : ReadsIf st st' Allows) (second : ReadsIf st' next Permitted) :
    ReadsIf st next (Allows ∧ Permitted) := by
  obtain ⟨new, grown, reads⟩ := first
  obtain ⟨more, further, readsToo⟩ := second
  refine ⟨new ++ more, by rw [further, grown, List.append_assoc], ?_⟩
  rw [readsAfter_append_iff, reads, ← grown, readsToo]

/-- The condition, said in another way. -/
theorem ReadsIf.congr (reads : ReadsIf st next Allows) (same : Allows ↔ Permitted) :
    ReadsIf st next Permitted := by
  obtain ⟨new, grown, exact⟩ := reads
  exact ⟨new, grown, exact.trans same⟩

section Insertion

end Insertion

/-- The position at which a call stores its argument, in a vector of the given size. -/
def Operation.target (size : Nat) : Operation (Object Value) → Nat
  | insert position _ | set position _ => position
  | pushBack _ | popBack | erase _ | resize _ | reserve _ | clear => size

/-- The argument is none of the elements that the call destroys before it copies it. -/
def Operation.Apart (st : State Value) : Operation (Object Value) → Prop
  | insert position object => Spared st position object
  | set position object => ∀ element, object = .stored element → st.slotAt position ≠ some element
  | pushBack _ | popBack | erase _ | resize _ | reserve _ | clear => True

section Calls

variable (held : Held (· < st.size) st) (valid : object.Valid st)
  (allocated : st.array.length = st.capacity) (given : next.array.length = next.capacity)

include valid

include allocated given

include held

end Calls

variable {trace : List (Transition (State Value) (Operation (Object Value)))}

end SystemProgramming.Vector
