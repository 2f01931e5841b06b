import Mathlib.Data.List.Basic
import Mathlib.Data.Nat.Log
import SystemProgramming.Vector.Vector

/-! What the slots of a vector hold, and what each primitive access and each growth does to them. -/

namespace SystemProgramming.Vector

open Foundations Foundations.Lifetimes

section Capacity

variable {fuel target exponent bound capacity : Nat}

/-- From a capacity of 0, the loop never gets out. -/
theorem grow_zero (positive : 0 < target) : grow fuel target 0 = none := by
  induction fuel with
  | zero => rw [grow, if_pos positive]
  | succ fuel ih => rw [grow, if_pos positive, Nat.zero_mul, Nat.zero_mod, ih]

/-- From a power of two, the loop ends with a power of two that reaches the target. -/
theorem grow_spec (small : exponent < 64)
    (done : grow fuel target (2 ^ exponent) = some capacity) :
    target ≤ capacity ∧ ∃ k, capacity = 2 ^ k := by
  -- The induction is on the turns that are left, each of which doubles the power.
  induction fuel generalizing exponent with
  | zero =>
    rw [grow] at done
    split at done
    · cases done
    · obtain rfl := Option.some.inj done
      exact ⟨by omega, exponent, rfl⟩
  | succ fuel ih =>
    rw [grow] at done
    split at done
    · rename_i below
      rw [growthFactor, ← Nat.pow_succ] at done
      rcases Nat.lt_or_ge (exponent + 1) 64 with more | last
      · rw [Nat.mod_eq_of_lt (Nat.pow_lt_pow_right (by decide) more)] at done
        exact ih more done
      · -- The largest power of two wraps around to 0.
        obtain rfl : exponent = 63 := by omega
        rw [Nat.mod_self, grow_zero (by omega)] at done
        cases done
    · obtain rfl := Option.some.inj done
      exact ⟨by omega, exponent, rfl⟩

/-- The loop ends at a power of two that is not over a bound on the target. -/
theorem grow_total (small : bound < 64) (within : target ≤ 2 ^ bound) (ordered : exponent ≤ bound)
    (enough : bound ≤ exponent + fuel) :
    ∃ k, k ≤ bound ∧ grow fuel target (2 ^ exponent) = some (2 ^ k) := by
  -- A power below the target is below the bound too, so that the next one does not wrap.
  have next (below : 2 ^ exponent < target) : exponent < bound :=
    (Nat.pow_lt_pow_iff_right (by decide)).mp (below.trans_le within)
  induction fuel generalizing exponent with
  | zero =>
    refine ⟨exponent, ordered, ?_⟩
    rw [grow, if_neg]
    intro below
    have := next below
    omega
  | succ fuel ih =>
    rw [grow]
    split
    · rename_i below
      have more := next below
      have fits : 2 ^ (exponent + 1) < 2 ^ 64 := Nat.pow_lt_pow_right (by decide) (by omega)
      rw [growthFactor, ← Nat.pow_succ, Nat.mod_eq_of_lt fits]
      exact ih more (by omega) fun below =>
        (Nat.pow_lt_pow_iff_right (by decide)).mp (below.trans_le within)
    · exact ⟨exponent, ordered, rfl⟩

/-- `get_new_capacity` returns a power of two that reaches its target. -/
theorem getNewCapacity_spec (done : getNewCapacity target = some capacity) :
    target ≤ capacity ∧ ∃ k, capacity = 2 ^ k := by
  exact grow_spec (show 0 < 64 by decide) done

/-- It returns one within a bound on the target. -/
theorem getNewCapacity_total (small : bound < 64) (within : target ≤ 2 ^ bound) :
    ∃ k, k ≤ bound ∧ getNewCapacity target = some (2 ^ k) :=
  grow_total small within (Nat.zero_le _) (by omega)

/-- An array of at most 2^60 slots has a size in bytes that does not wrap. -/
theorem slots_of_le (exponent : Nat) (small : exponent ≤ 60) : slots (2 ^ exponent) = 2 ^ exponent := by
  have fits : 2 ^ exponent ≤ 2 ^ 60 := Nat.pow_le_pow_right (by decide) small
  rw [slots, Nat.mod_eq_of_lt (by omega), Nat.mul_div_cancel _ (by decide)]

end Capacity

variable {Value : Type*} {callbacks : Callbacks Value} {st st' next : State Value} {i j n : Nat}
  {object : Object Value} {element : Element Value} {value : Value}
  {reads : List (Event (Element Value))}

/-- The element in a slot, if there is one. -/
def State.slotAt (st : State Value) (i : Nat) : Option (Element Value) := st.array[i]?.join

/-- A slot that holds an element is one of the array. -/
theorem lt_of_slotAt (holds : st.slotAt i = some element) : i < st.array.length := by
  rw [State.slotAt, Option.join_eq_some_iff] at holds
  exact (List.getElem?_eq_some_iff.mp holds).1

/-- The size, the capacity and the number of slots are the same. -/
structure Kept (st next : State Value) : Prop where
  size : next.size = st.size
  capacity : next.capacity = st.capacity
  length : next.array.length = st.array.length

theorem Kept.refl : Kept st st := ⟨rfl, rfl, rfl⟩

theorem Kept.trans (first : Kept st st') (second : Kept st' next) : Kept st next :=
  ⟨second.size.trans first.size, second.capacity.trans first.capacity,
    second.length.trans first.length⟩

/-- All slots were there before, if they are afterwards. -/
theorem Kept.allocated (kept : Kept st next) (given : next.array.length = next.capacity) :
    st.array.length = st.capacity := by
  rw [← kept.length, ← kept.capacity, given]

section Primitives

/-- Destroying what a slot of the array holds. -/
theorem destroyAt_eq (inside : i < st.array.length) :
    st.destroyAt i = some { st with lives := st.lives ++ [.ends (st.slotAt i)] } := by
  rw [State.destroyAt, State.slotAt, List.getElem?_eq_getElem inside]
  rfl

/-- What is destroyed stays where it is. -/
theorem destroyAt_kept (done : st.destroyAt i = some next) : Kept st next ∧ next.slotAt = st.slotAt := by
  rw [State.destroyAt, Option.map_eq_some_iff] at done
  obtain ⟨slot, _, rfl⟩ := done
  exact ⟨⟨rfl, rfl, rfl⟩, rfl⟩

/-- A new element goes to its slot, and the other slots are as before. -/
theorem construct_kept (done : st.construct i value reads = some next) :
    Kept st next ∧ next.slotAt = Function.update st.slotAt i (some ⟨st.made, value⟩) := by
  rw [State.construct] at done
  split at done
  · rename_i inside
    obtain rfl := Option.some.inj done
    refine ⟨⟨rfl, rfl, List.length_set⟩, ?_⟩
    funext j
    rw [Function.update_apply, State.slotAt, State.slotAt, List.getElem?_set]
    split
    · rename_i same
      subst same
      simp
    · rename_i apart
      rw [if_neg (Ne.symm apart)]
  · cases done

/-- A slot of the array can take a new element. -/
theorem construct_total (value : Value) (reads : List (Event (Element Value)))
    (inside : i < st.array.length) : ∃ next, st.construct i value reads = some next := by
  rw [State.construct, if_pos inside]
  exact ⟨_, rfl⟩

/-- A copy from a slot is a copy of the element in it. -/
theorem copySlot_eq (holds : st.slotAt j = some element) :
    st.copySlot callbacks i j = st.copyTo callbacks i (.stored element) := by
  rw [State.slotAt, Option.join_eq_some_iff] at holds
  rw [State.copySlot, holds]

/-- A slot from which something is copied holds an element. -/
theorem slotAt_of_copySlot (done : st.copySlot callbacks i j = some next) :
    ∃ element, st.slotAt j = some element := by
  rw [State.copySlot] at done
  split at done
  · rename_i element holds
    exact ⟨element, by rw [State.slotAt, holds]; rfl⟩
  · cases done

/-- A turn of the shifting loops keeps the shape. -/
theorem replaceSlot_kept (done : st.replaceSlot callbacks i j = some next) : Kept st next := by
  obtain ⟨middle, destroyed, copied⟩ := Option.bind_eq_some_iff.mp done
  obtain ⟨element, holds⟩ := slotAt_of_copySlot copied
  rw [copySlot_eq holds, State.copyTo] at copied
  exact (destroyAt_kept destroyed).1.trans (construct_kept copied).1

/-- So does the loop that fills slots with defaults. -/
theorem defaults_kept {first last : Nat}
    (looped : forUp (State.defaultAt callbacks) first last st = some next) : Kept st next :=
  forUp_keeps (Kept st) .refl
    (fun _ _ _ before turned => before.trans (construct_kept turned).1) looped

/-- And all that `vector_insert` does behind the growth. -/
theorem inserting_kept {position last : Nat} {shifted emptied : State Value}
    (looped : forDown (fun i => State.replaceSlot callbacks i (i - 1)) position last st = some shifted)
    (destroyed : shifted.destroyAt position = some emptied)
    (copied : emptied.copyTo callbacks position object = some next) : Kept st next := by
  have shifts : Kept st shifted := forDown_keeps (Kept st) .refl
    (fun _ _ _ before turned => before.trans (replaceSlot_kept turned)) looped
  exact shifts.trans ((destroyAt_kept destroyed).1.trans (construct_kept copied).1)

end Primitives

section Growth

/-- A larger array holds the same elements. -/
theorem slotAt_reallocate {capacity : Nat} (enough : st.array.length ≤ slots capacity) :
    (st.reallocate capacity).slotAt = st.slotAt := by
  funext j
  rw [State.slotAt, State.slotAt, State.reallocate]
  simp only
  rw [List.take_of_length_le enough, List.getElem?_append]
  split
  · rfl
  · rename_i outside
    rw [List.getElem?_eq_none (Nat.le_of_not_lt outside), List.getElem?_replicate]
    split <;> rfl

/-- What growing a vector to a new size does to it. -/
structure Grown (n : Nat) (st next : State Value) : Prop where
  slots : next.slotAt = st.slotAt
  room : n ≤ next.capacity
  larger : st.capacity ≤ next.capacity
  needed : next.capacity ≠ st.capacity → st.capacity < n
  power : (∃ k, st.capacity = 2 ^ k) → ∃ k, next.capacity = 2 ^ k
  lives : next.lives = st.lives
  made : next.made = st.made

/-- A vector with room for the new size need not grow. -/
theorem Grown.refl (room : n ≤ st.capacity) : Grown n st st :=
  ⟨rfl, room, Nat.le_refl _, fun changed => absurd rfl changed, id, rfl, rfl⟩

/-- A vector grows to the capacity that `get_new_capacity` returns, if all its slots are there. -/
theorem grown_reallocate {capacity : Nat} (allocated : st.array.length = st.capacity)
    (small : st.capacity < n) (done : getNewCapacity n = some capacity)
    (given : (st.reallocate capacity).array.length = (st.reallocate capacity).capacity) :
    Grown n st (st.reallocate capacity) := by
  obtain ⟨reaches, power⟩ := getNewCapacity_spec done
  -- The array has as many slots as the capacity says, which are more than before.
  have enough : slots capacity = capacity := by
    rw [State.reallocate] at given
    simp only [List.length_append, List.length_take, List.length_replicate] at given
    omega
  refine ⟨slotAt_reallocate ?_, reaches, ?_, fun _ => small, fun _ => power, rfl, rfl⟩
  · omega
  · show st.capacity ≤ capacity
    omega

/-- `vector_reserve` grows the vector, if the allocation succeeds, and keeps its size. -/
theorem vectorReserve_grown (allocated : st.array.length = st.capacity)
    (done : vectorReserve n st = some next) (given : next.array.length = next.capacity) :
    Grown n st next ∧ next.size = st.size := by
  rw [vectorReserve] at done
  split at done
  · rename_i small
    obtain ⟨capacity, found, rfl⟩ := Option.map_eq_some_iff.mp done
    exact ⟨grown_reallocate allocated small found given, rfl⟩
  · obtain rfl := Option.some.inj done
    exact ⟨.refl (by omega), rfl⟩

/-- `vector_reserve` returns with all slots for every capacity that can be had. -/
theorem vectorReserve_total (allocated : st.array.length = st.capacity) {bound : Nat}
    (small : bound ≤ 60) (within : n ≤ 2 ^ bound) :
    ∃ next, vectorReserve n st = some next ∧ next.array.length = next.capacity := by
  rw [vectorReserve]
  split
  · rename_i larger
    obtain ⟨k, under, found⟩ := getNewCapacity_total (Nat.lt_of_le_of_lt small (by decide)) within
    have reaches := (getNewCapacity_spec found).1
    refine ⟨st.reallocate (2 ^ k), by rw [found]; rfl, ?_⟩
    rw [State.reallocate]
    simp only [List.length_append, List.length_take, List.length_replicate]
    rw [slots_of_le k (by omega)]
    omega
  · exact ⟨st, rfl, allocated⟩

/-- Making room for one more element. -/
theorem enlarge_grown (allocated : st.array.length = st.capacity) (done : st.enlarge = some next)
    (given : next.array.length = next.capacity) :
    Grown (st.size + 1) st next ∧ next.size = st.size + 1 := by
  rw [State.enlarge] at done
  simp only at done
  split at done
  · have slots : { st with size := st.size + 1 }.array.length = st.capacity := allocated
    obtain ⟨grown, same⟩ := vectorReserve_grown slots done given
    exact ⟨⟨grown.slots, grown.room, grown.larger, grown.needed, grown.power, grown.lives,
      grown.made⟩, same⟩
  · rename_i room
    obtain rfl := Option.some.inj done
    exact ⟨⟨rfl, Nat.le_of_not_lt room, Nat.le_refl _, fun changed => absurd rfl changed, id, rfl, rfl⟩, rfl⟩

/-- There is room for one more element as long as the size is small enough. -/
theorem enlarge_total (allocated : st.array.length = st.capacity) {bound : Nat}
    (small : bound ≤ 60) (within : st.size + 1 ≤ 2 ^ bound) :
    ∃ next, st.enlarge = some next ∧ next.array.length = next.capacity := by
  rw [State.enlarge]
  simp only
  split
  · have slots : { st with size := st.size + 1 }.array.length = st.capacity := allocated
    exact vectorReserve_total slots small within
  · exact ⟨_, rfl, allocated⟩

end Growth

end SystemProgramming.Vector
