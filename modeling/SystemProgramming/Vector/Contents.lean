import SystemProgramming.Vector.Slots

/-! The vector is a list: what every call does to the contents, and how the capacity grows. -/

namespace SystemProgramming.Vector

open Foundations

variable {Value : Type*} {callbacks : Callbacks Value} {st st' next : State Value} {i j n : Nat}
  {values : List Value} {object : Object Value} {value : Value}

/-- `array[0..size)`, by the values of its elements. -/
def contents (st : State Value) : List (Option Value) :=
  (st.array.take st.size).map fun slot => slot.map Element.value

/-- The value in a slot. -/
def State.valueAt (st : State Value) (i : Nat) : Option Value := (st.slotAt i).map Element.value

/-- What a call does to a list; a list that is made longer is filled up with the default. -/
def Operation.onList (default : Value) (values : List Value) :
    Operation (Object Value) → List Value
  | pushBack element => values ++ [element.value]
  | popBack => values.dropLast
  | insert position element => values.insertIdx position element.value
  | erase position => values.eraseIdx position
  | set position element => values.set position element.value
  | resize n => values.take n ++ List.replicate (n - values.length) default
  | reserve _ => values
  | clear => []

/-- The size that a call needs room for. -/
def Operation.demand (size : Nat) : Operation (Object Value) → Nat
  | pushBack _ | insert _ _ => size + 1
  | resize n | reserve n => n
  | popBack | erase _ | set _ _ | clear => 0

/-- What a call asserts about its arguments. -/
def Operation.Asserted (size : Nat) : Operation (Object Value) → Prop
  | popBack => 0 < size
  | insert position _ => position ≤ size
  | erase position | set position _ => position < size
  | pushBack _ | resize _ | reserve _ | clear => True

/-- The argument is no element that the vector stores. -/
def Operation.Outside (st : State Value) (operation : Operation (Object Value)) : Prop :=
  ∀ element, operation.argument = some (.stored element) →
    some element ∉ st.array.take st.size

/-- The vector holds the values of a list, in an array of a power of two of slots. -/
structure Refines (st : State Value) (values : List Value) : Prop where
  size : st.size = values.length
  shown : ∀ i, i < values.length → st.valueAt i = values[i]?
  room : st.size ≤ st.capacity
  allocated : st.array.length = st.capacity
  power : ∃ k, st.capacity = 2 ^ k

/-- The contents of a vector are the list that it holds. -/
theorem Refines.contents (refines : Refines st values) : contents st = values.map some := by
  have inside : st.size ≤ st.array.length := refines.allocated ▸ refines.room
  apply List.ext_getElem?
  intro i
  rcases Nat.lt_or_ge i values.length with below | above
  · -- A slot below the size shows the value of the list.
    have shown := refines.shown i below
    have size := refines.size
    have slot : i < st.array.length := by omega
    rw [State.valueAt, State.slotAt, List.getElem?_eq_getElem slot, List.getElem?_eq_getElem below,
      Option.join_some] at shown
    rw [Vector.contents, List.getElem?_map, List.getElem?_take_of_lt (by omega),
      List.getElem?_eq_getElem slot, List.getElem?_map, List.getElem?_eq_getElem below,
      Option.map_some, Option.map_some, shown]
  · have size := refines.size
    rw [List.getElem?_eq_none, List.getElem?_eq_none]
    · simpa using above
    · simp only [Vector.contents, List.length_map, List.length_take]
      omega

section Primitives

/-- Destroying what a slot holds is possible for every slot and leaves the values. -/
theorem destroyAt_values (inside : i < st.array.length) :
    ∃ next, st.destroyAt i = some next ∧ Kept st next ∧ next.valueAt = st.valueAt := by
  have done := destroyAt_eq inside
  obtain ⟨kept, slots⟩ := destroyAt_kept done
  refine ⟨_, done, kept, ?_⟩
  funext j
  rw [State.valueAt, State.valueAt, slots]

/-- A constructor changes the value of its slot only. -/
theorem construct_values (value : Value) (reads : List (Lifetimes.Event (Element Value)))
    (inside : i < st.array.length) :
    ∃ next, st.construct i value reads = some next ∧ Kept st next ∧
      next.valueAt = Function.update st.valueAt i (some value) := by
  obtain ⟨next, done⟩ := construct_total value reads inside
  obtain ⟨kept, slots⟩ := construct_kept done
  refine ⟨next, done, kept, ?_⟩
  funext j
  rw [State.valueAt, slots, Function.update_apply, Function.update_apply]
  split <;> rfl

/-- With copies that are equal to the original, a turn of a shifting loop copies a value. -/
theorem replaceSlot_values (copies : ∀ value, callbacks.copyConstructor value = value)
    (inside : i < st.array.length) (shown : st.valueAt j = some value) :
    ∃ next, st.replaceSlot callbacks i j = some next ∧ Kept st next ∧
      next.valueAt = Function.update st.valueAt i (some value) := by
  obtain ⟨middle, destroyed, kept, same⟩ := destroyAt_values inside
  obtain ⟨element, holds, rfl⟩ := Option.map_eq_some_iff.mp (same ▸ shown)
  obtain ⟨next, copied, keptToo, shows⟩ := construct_values
    (callbacks.copyConstructor element.value) (Object.reads (.stored element))
    (show i < middle.array.length by rw [kept.length]; exact inside)
  refine ⟨next, ?_, kept.trans keptToo, ?_⟩
  · rw [State.replaceSlot, destroyed, Option.bind_some, copySlot_eq holds]
    exact copied
  · rw [shows, same, copies]

end Primitives

section Operations

/-- A vector with the same shape and other values in its slots. -/
theorem Refines.of_kept {others : List Value} (refines : Refines st values) (kept : Kept st next)
    (length : others.length = values.length)
    (shown : ∀ i, i < others.length → next.valueAt i = others[i]?) : Refines next others where
  size := by rw [kept.size, refines.size, length]
  shown := shown
  room := by rw [kept.size, kept.capacity]; exact refines.room
  allocated := by rw [kept.length, kept.capacity]; exact refines.allocated
  power := by rw [kept.capacity]; exact refines.power

/-- A vector that has grown holds the same values. -/
theorem Refines.grown (refines : Refines st values) (grown : Grown n st next)
    (size : next.size = st.size) (given : next.array.length = next.capacity) :
    Refines next values where
  size := size.trans refines.size
  shown i below := by rw [State.valueAt, grown.slots]; exact refines.shown i below
  room := by
    have := refines.room
    have := grown.larger
    omega
  allocated := given
  power := grown.power refines.power

/-- A loop that destroys the elements of some slots keeps all values. -/
theorem destroys_values (st : State Value) {first last : Nat} (ordered : first ≤ last)
    (inside : last ≤ st.array.length) :
    ∃ next, forUp State.destroyAt first last st = some next ∧ Kept st next ∧
      next.valueAt = st.valueAt := by
  refine forUp_rule _ _ (fun _ now => Kept st now ∧ now.valueAt = st.valueAt) ordered ⟨.refl, rfl⟩ ?_
  intro i now _ below ⟨kept, same⟩
  have slot : i < now.array.length := by
    rw [kept.length]
    omega
  obtain ⟨next, done, keptToo, sameToo⟩ := destroyAt_values slot
  exact ⟨next, done, kept.trans keptToo, sameToo.trans same⟩

/-- A loop that fills some slots with defaults keeps the other values. -/
theorem defaults_values (callbacks : Callbacks Value) {first last : Nat} (ordered : first ≤ last)
    (inside : last ≤ st.array.length) :
    ∃ next, forUp (State.defaultAt callbacks) first last st = some next ∧ Kept st next ∧
      ∀ j, next.valueAt j =
        if first ≤ j ∧ j < last then some callbacks.defaultConstructor else st.valueAt j := by
  refine forUp_rule _ _ (fun i now => Kept st now ∧ ∀ j, now.valueAt j =
    if first ≤ j ∧ j < i then some callbacks.defaultConstructor else st.valueAt j) ordered ?_ ?_
  · refine ⟨.refl, fun j => ?_⟩
    rw [if_neg (by omega)]
  · intro i now lower below ⟨kept, shown⟩
    have slot : i < now.array.length := by
      rw [kept.length]
      omega
    obtain ⟨next, done, keptToo, shows⟩ := construct_values
      callbacks.defaultConstructor [] slot
    refine ⟨next, done, kept.trans keptToo, fun j => ?_⟩
    rw [shows, Function.update_apply, shown j]
    -- The slot of this turn is the next of the range.
    split
    · rw [if_pos (by omega)]
    · congr 1
      simp only [eq_iff_iff]
      omega

variable {larger : State Value}

/-- A vector that was enlarged and then filled holds a list that is longer by one. -/
theorem Refines.of_enlarged {others : List Value} (refines : Refines st values)
    (enlarged : st.enlarge = some larger) (given : larger.array.length = larger.capacity)
    (kept : Kept larger next) (length : others.length = values.length + 1)
    (shown : ∀ i, i < others.length → next.valueAt i = others[i]?) : Refines next others := by
  obtain ⟨grown, size⟩ := enlarge_grown refines.allocated enlarged given
  have old := refines.size
  have room := grown.room
  refine ⟨?_, shown, ?_, ?_, ?_⟩
  · rw [kept.size, size, length, old]
  · rw [kept.size, kept.capacity, size]
    exact room
  · rw [kept.length, kept.capacity, given]
  · rw [kept.capacity]
    exact grown.power refines.power

/-- The slots of an enlarged vector show what they did, and there is one more of them. -/
theorem Refines.enlarged_values (refines : Refines st values) (enlarged : st.enlarge = some larger)
    (given : larger.array.length = larger.capacity) :
    larger.size = values.length + 1 ∧ values.length < larger.array.length ∧
      ∀ i, i < values.length → larger.valueAt i = values[i]? := by
  obtain ⟨grown, size⟩ := enlarge_grown refines.allocated enlarged given
  have old := refines.size
  have room := grown.room
  refine ⟨by rw [size, old], by omega, fun i below => ?_⟩
  rw [State.valueAt, grown.slots]
  exact refines.shown i below

/-- `vector_push_back` appends. -/
theorem pushBack_refines (object : Object Value)
    (copies : ∀ value, callbacks.copyConstructor value = value)
    (refines : Refines st values) (enlarged : st.enlarge = some larger)
    (given : larger.array.length = larger.capacity) :
    ∃ next, vectorPushBack callbacks object st = some next ∧ Kept larger next ∧
      Refines next (values ++ [object.value]) := by
  obtain ⟨size, inside, shown⟩ := refines.enlarged_values enlarged given
  obtain ⟨next, done, kept, shows⟩ := construct_values
    (callbacks.copyConstructor object.value) object.reads inside
  refine ⟨next, ?_, kept, refines.of_enlarged enlarged given kept (by simp) fun i below => ?_⟩
  · rw [vectorPushBack, enlarged, Option.bind_some, size, Nat.add_sub_cancel]
    exact done
  · rw [shows, Function.update_apply, copies, List.getElem?_append]
    simp only [List.length_append, List.length_singleton] at below
    -- The new slot is the last one.
    split
    · rename_i last
      rw [if_neg (by omega), last, Nat.sub_self]
      rfl
    · rw [if_pos (by omega), shown i (by omega)]

/-- The loop of `vector_insert` shifts what comes at and behind the position up. -/
theorem shiftUp_values (copies : ∀ value, callbacks.copyConstructor value = value) {position : Nat}
    (within : position ≤ values.length) (inside : values.length < st.array.length)
    (shown : ∀ i, i < values.length → st.valueAt i = values[i]?) :
    ∃ shifted, forDown (fun i => State.replaceSlot callbacks i (i - 1)) position values.length st =
        some shifted ∧ Kept st shifted ∧
      (∀ j, j ≤ position → j < values.length → shifted.valueAt j = values[j]?) ∧
      ∀ j, position < j → j ≤ values.length → shifted.valueAt j = values[j - 1]? := by
  -- Before the turn for an index, the values above it are shifted and those up to it are not.
  refine forDown_rule (fun i => State.replaceSlot callbacks i (i - 1)) st
    (fun i now => Kept st now ∧ (∀ j, j ≤ i → j < values.length → now.valueAt j = values[j]?) ∧
      ∀ j, i < j → j ≤ values.length → now.valueAt j = values[j - 1]?)
    within ⟨.refl, fun j _ => shown j, fun j above below => by omega⟩ ?_
  intro i now _ below ⟨kept, low, high⟩
  have known : now.valueAt i = some values[i] := by
    rw [low i (by omega) (by omega), List.getElem?_eq_getElem]
  have slot : i + 1 < now.array.length := by
    rw [kept.length]
    omega
  obtain ⟨next, done, keptToo, shows⟩ := replaceSlot_values copies slot known
  refine ⟨next, done, kept.trans keptToo, fun j upto before => ?_, fun j above upto => ?_⟩
  · rw [shows, Function.update_of_ne (by omega), low j (by omega) before]
  · rw [shows, Function.update_apply]
    split
    · rename_i same
      rw [same, Nat.add_sub_cancel, List.getElem?_eq_getElem]
    · exact high j (by omega) upto

/-- `vector_insert` puts the new value at the position. -/
theorem insert_refines (object : Object Value)
    (copies : ∀ value, callbacks.copyConstructor value = value)
    (refines : Refines st values) {position : Nat} (within : position ≤ st.size)
    (enlarged : st.enlarge = some larger) (given : larger.array.length = larger.capacity) :
    ∃ next, vectorInsert callbacks position object st = some next ∧ Kept larger next ∧
      Refines next (values.insertIdx position object.value) := by
  obtain ⟨size, inside, shown⟩ := refines.enlarged_values enlarged given
  have old := refines.size
  obtain ⟨shifted, looped, kept, low, high⟩ :=
    shiftUp_values copies (show position ≤ values.length by omega) inside shown
  have slot : position < shifted.array.length := by
    rw [kept.length]
    omega
  obtain ⟨emptied, destroyed, keptToo, same⟩ := destroyAt_values slot
  obtain ⟨next, done, keptLast, shows⟩ := construct_values
    (callbacks.copyConstructor object.value) object.reads
    (show position < emptied.array.length by rw [keptToo.length]; exact slot)
  have all := kept.trans (keptToo.trans keptLast)
  have length : (values.insertIdx position object.value).length = values.length + 1 :=
    List.length_insertIdx_of_le_length (by omega) _
  refine ⟨next, ?_, all, refines.of_enlarged enlarged given all length fun i below => ?_⟩
  · rw [vectorInsert, if_neg (by omega), enlarged, Option.bind_some, size, Nat.add_sub_cancel,
      looped, Option.bind_some, destroyed, Option.bind_some]
    exact done
  · rw [length] at below
    rw [shows, Function.update_apply, same, copies, List.getElem?_insertIdx]
    rcases Nat.lt_trichotomy i position with before | rfl | behind
    · rw [if_neg (by omega), if_pos before, low i (by omega) (by omega)]
    · rw [if_pos rfl, if_neg (by omega), if_pos rfl, if_pos (by omega)]
    · rw [if_neg (by omega), if_neg (by omega), if_neg (by omega), high i behind (by omega)]

/-- The loop of `vector_erase` shifts what comes behind the position down. -/
theorem shiftDown_values (copies : ∀ value, callbacks.copyConstructor value = value)
    {position last : Nat} (ordered : position ≤ last) (fewer : values.length = last + 1)
    (inside : last < st.array.length) (shown : ∀ i, i < values.length → st.valueAt i = values[i]?) :
    ∃ shifted, forUp (fun i => State.replaceSlot callbacks i (i + 1)) position last st =
        some shifted ∧ Kept st shifted ∧ ∀ j, j < values.length →
      shifted.valueAt j = if position ≤ j ∧ j < last then values[j + 1]? else values[j]? := by
  -- Before the turn for an index, the values below it are shifted and the others are not.
  refine forUp_rule (fun i => State.replaceSlot callbacks i (i + 1)) st
    (fun i now => Kept st now ∧ ∀ j, j < values.length →
      now.valueAt j = if position ≤ j ∧ j < i then values[j + 1]? else values[j]?)
    ordered ⟨.refl, fun j below => by rw [if_neg (by omega)]; exact shown j below⟩ ?_
  intro i now lower below ⟨kept, shows⟩
  have known : now.valueAt (i + 1) = some values[i + 1] := by
    rw [shows (i + 1) (by omega), if_neg (by omega), List.getElem?_eq_getElem]
  have slot : i < now.array.length := by
    rw [kept.length]
    omega
  obtain ⟨next, done, keptToo, shown⟩ := replaceSlot_values copies slot known
  refine ⟨next, done, kept.trans keptToo, fun j inside => ?_⟩
  rw [shown, Function.update_apply]
  split
  · rename_i same
    rw [if_pos (by omega), same, List.getElem?_eq_getElem]
  · -- The turn changes the value at its own index only.
    rw [shows j inside]
    congr 1
    simp only [eq_iff_iff]
    omega

/-- `vector_erase` takes the value at the position away. -/
theorem erase_refines (copies : ∀ value, callbacks.copyConstructor value = value)
    (refines : Refines st values) {position : Nat} (within : position < st.size) :
    ∃ next, vectorErase callbacks position st = some next ∧
      Refines next (values.eraseIdx position) ∧ next.capacity = st.capacity := by
  have old := refines.size
  have room := refines.room
  have allocated := refines.allocated
  obtain ⟨last, fewer⟩ : ∃ last, values.length = last + 1 := ⟨values.length - 1, by omega⟩
  -- The size is one less already when the loop begins.
  obtain ⟨shifted, looped, kept, shows⟩ := @shiftDown_values _ callbacks
    { st with size := st.size - 1 } values copies position last (by omega) fewer
    (by show last < st.array.length; omega) refines.shown
  have size : shifted.size = last := by
    rw [kept.size]
    show st.size - 1 = last
    omega
  have slot : last < shifted.array.length := by
    rw [kept.length]
    show last < st.array.length
    omega
  obtain ⟨next, done, keptToo, same⟩ := destroyAt_values slot
  have all := kept.trans keptToo
  have length : (values.eraseIdx position).length = last := by
    rw [List.length_eraseIdx_of_lt (by omega)]
    omega
  refine ⟨next, ?_, ⟨?_, fun i below => ?_, ?_, ?_, ?_⟩, all.capacity⟩
  · rw [vectorErase, if_neg (by omega)]
    show (forUp _ position (st.size - 1) _).bind _ = _
    rw [show st.size - 1 = last by omega] at looped ⊢
    rw [looped, Option.bind_some, size, done]
  · rw [all.size, length]
    show st.size - 1 = last
    omega
  · rw [length] at below
    rw [same, shows i (by omega), List.getElem?_eraseIdx]
    -- Below the position nothing has changed, and from there on everything is shifted.
    rcases Nat.lt_or_ge i position with before | behind
    · rw [if_neg (by omega), if_pos before]
    · rw [if_pos ⟨behind, below⟩, if_neg (by omega)]
  · rw [all.size, all.capacity]
    show st.size - 1 ≤ st.capacity
    omega
  · rw [all.length, all.capacity]
    exact allocated
  · rw [all.capacity]
    exact refines.power

/-- A vector that is cut to a smaller size holds the front of the list. -/
theorem Refines.cut (refines : Refines st values) (kept : Kept st next)
    (same : next.valueAt = st.valueAt) (less : n ≤ st.size) :
    Refines { next with size := n } (values.take n) := by
  have old := refines.size
  have room := refines.room
  have length : (values.take n).length = n := by
    rw [List.length_take]
    omega
  refine ⟨length.symm, fun i below => ?_, ?_, ?_, ?_⟩
  · rw [length] at below
    show next.valueAt i = _
    rw [same, refines.shown i (by omega), List.getElem?_take_of_lt below]
  · show n ≤ next.capacity
    rw [kept.capacity]
    omega
  · show next.array.length = next.capacity
    rw [kept.length, kept.capacity]
    exact refines.allocated
  · show ∃ k, next.capacity = 2 ^ k
    rw [kept.capacity]
    exact refines.power

/-- `vector_pop_back` drops the last value. -/
theorem popBack_refines (refines : Refines st values) (occupied : 0 < st.size) :
    ∃ next, vectorPopBack st = some next ∧ Refines next values.dropLast ∧
      next.capacity = st.capacity := by
  have old := refines.size
  have room := refines.room
  have allocated := refines.allocated
  obtain ⟨next, done, kept, same⟩ := destroyAt_values
    (show st.size - 1 < { st with size := st.size - 1 }.array.length by simp only; omega)
  have size : next.size = st.size - 1 := kept.size
  refine ⟨next, by rw [vectorPopBack, if_neg (by omega), done], ?_, kept.capacity⟩
  have shape : Kept st { next with size := st.size } := ⟨rfl, kept.capacity, kept.length⟩
  have front := refines.cut shape same (show st.size - 1 ≤ st.size by omega)
  rw [List.dropLast_eq_take, ← old]
  exact size ▸ front

/-- `vector_clear` leaves nothing. -/
theorem clear_refines (refines : Refines st values) :
    ∃ next, vectorClear st = some next ∧ Refines next [] ∧ next.capacity = st.capacity := by
  have room := refines.room
  have allocated := refines.allocated
  obtain ⟨next, done, kept, same⟩ := destroys_values st (Nat.zero_le st.size) (by omega)
  refine ⟨{ next with size := 0 }, by rw [vectorClear, done]; rfl, ?_, kept.capacity⟩
  exact refines.cut kept same (Nat.zero_le _)

/-- `vector_set` changes the value at its position. -/
theorem set_refines (object : Object Value)
    (copies : ∀ value, callbacks.copyConstructor value = value)
    (refines : Refines st values) {position : Nat} (within : position < st.size) :
    ∃ next, vectorSet callbacks position object st = some next ∧
      Refines next (values.set position object.value) ∧ next.capacity = st.capacity := by
  have old := refines.size
  have room := refines.room
  have allocated := refines.allocated
  -- The old value is destroyed, and a copy of the new one is made in its slot.
  obtain ⟨emptied, destroyed, kept, same⟩ := destroyAt_values
    (show position < st.array.length by omega)
  obtain ⟨next, done, keptToo, shows⟩ := construct_values
    (callbacks.copyConstructor object.value) object.reads
    (show position < emptied.array.length by rw [kept.length]; omega)
  have all := kept.trans keptToo
  refine ⟨next, ?_, refines.of_kept all List.length_set fun i below => ?_, all.capacity⟩
  · rw [vectorSet, if_neg (by omega), destroyed, Option.bind_some]
    exact done
  · rw [List.length_set] at below
    rw [shows, Function.update_apply, same, copies, List.getElem?_set]
    split
    · rename_i at_position
      subst at_position
      rw [if_pos rfl, if_pos below]
    · rename_i elsewhere
      rw [if_neg (Ne.symm elsewhere), refines.shown i below]

/-- Filling up a vector with room for the new size. -/
theorem Refines.fill (callbacks : Callbacks Value) (refines : Refines st values)
    (more : st.size ≤ n) (room : n ≤ st.capacity) :
    ∃ next, forUp (State.defaultAt callbacks) st.size n st = some next ∧
      Refines { next with size := n }
        (values ++ List.replicate (n - values.length) callbacks.defaultConstructor) ∧
      Kept st next := by
  have old := refines.size
  obtain ⟨next, done, kept, shows⟩ := defaults_values callbacks more
    (room.trans_eq refines.allocated.symm)
  have length : (values ++ List.replicate (n - values.length)
      callbacks.defaultConstructor).length = n := by
    rw [List.length_append, List.length_replicate]
    omega
  refine ⟨next, done, ⟨length.symm, fun i below => ?_, ?_, ?_, ?_⟩, kept⟩
  · rw [length] at below
    show next.valueAt i = _
    rw [shows i, List.getElem?_append, List.getElem?_replicate]
    rcases Nat.lt_or_ge i values.length with before | behind
    · rw [if_neg (by omega), if_pos before, refines.shown i before]
    · rw [if_pos (by omega), if_neg (by omega), if_pos (by omega)]
  · show n ≤ next.capacity
    rw [kept.capacity]
    exact room
  · show next.array.length = next.capacity
    rw [kept.length, kept.capacity]
    exact refines.allocated
  · show ∃ k, next.capacity = 2 ^ k
    rw [kept.capacity]
    exact refines.power

/-- A `vector_resize` that does not shrink the vector reserves the new size and fills it up. -/
theorem vectorResize_larger (more : st.size < n) :
    vectorResize callbacks n st = (vectorReserve n st).bind fun roomy =>
      (forUp (State.defaultAt callbacks) st.size n roomy).map fun roomy =>
        { roomy with size := n } := by
  rw [vectorResize, if_neg (by omega), vectorReserve]
  split
  · rename_i room
    rw [if_neg (by omega), Option.bind_some]
  · rename_i tight
    rw [if_pos (by omega)]
    cases getNewCapacity n <;> rfl

/-- A `vector_resize` to the present size or a smaller one cuts the vector. -/
theorem resize_shrinks (callbacks : Callbacks Value) (refines : Refines st values) (less : n ≤ st.size) :
    ∃ next, vectorResize callbacks n st = some next ∧ Refines next (values.take n) ∧
      next.capacity = st.capacity := by
  have room := refines.room
  have allocated := refines.allocated
  rcases Nat.lt_or_ge n st.size with smaller | same
  · obtain ⟨next, done, kept, shows⟩ := destroys_values st (show n + 1 ≤ st.size from smaller)
      (by omega)
    refine ⟨{ next with size := n }, ?_, refines.cut kept shows less, kept.capacity⟩
    rw [vectorResize, if_pos less, done]
    rfl
  · refine ⟨{ st with size := n }, ?_, refines.cut .refl rfl less, rfl⟩
    rw [vectorResize, if_pos less, forUp_of_le (by omega)]
    rfl

end Operations

section Calls

variable {operation : Operation (Object Value)} {larger : State Value}

/-- The capacity does not shrink, and changes only if the call needs room for more. -/
structure Capacious (demand : Nat) (st next : State Value) : Prop where
  larger : st.capacity ≤ next.capacity
  needed : next.capacity ≠ st.capacity → st.capacity < demand

/-- The same capacity is a capacity that did not change. -/
theorem Capacious.of_eq {demand : Nat} (same : next.capacity = st.capacity) :
    Capacious demand st next :=
  ⟨same.ge, fun changed => absurd same changed⟩

/-- A vector that has grown is larger, and it had to grow. -/
theorem Grown.capacious (grown : Grown n st larger) (same : next.capacity = larger.capacity) :
    Capacious n st next := by
  refine ⟨?_, ?_⟩
  · rw [same]
    exact grown.larger
  · rw [same]
    exact grown.needed

/-- `vector_push_back`, where all slots of the vector that has grown are allocated. -/
theorem Refines.pushBack_step {element : Object Value}
    (copies : ∀ value, callbacks.copyConstructor value = value) (refines : Refines st values)
    (returns : vectorPushBack callbacks element st = some next)
    (allocated : next.array.length = next.capacity) :
    Refines next (values ++ [element.value]) ∧ Capacious (st.size + 1) st next := by
  obtain ⟨larger, enlarged, copied⟩ := Option.bind_eq_some_iff.mp returns
  have kept := (construct_kept copied).1
  have given := kept.allocated allocated
  obtain ⟨after, done, _, result⟩ := pushBack_refines element copies refines enlarged given
  obtain rfl := Option.some.inj (done.symm.trans returns)
  exact ⟨result, (enlarge_grown refines.allocated enlarged given).1.capacious kept.capacity⟩

/-- `vector_insert`, in the same case; it returns only for a position in the vector. -/
theorem Refines.insert_step {element : Object Value} {position : Nat}
    (copies : ∀ value, callbacks.copyConstructor value = value) (refines : Refines st values)
    (returns : vectorInsert callbacks position element st = some next)
    (allocated : next.array.length = next.capacity) :
    Refines next (values.insertIdx position element.value) ∧ Capacious (st.size + 1) st next := by
  have within : position ≤ st.size := by
    by_contra outside
    rw [vectorInsert, if_pos (by omega)] at returns
    cases returns
  -- Everything behind the growth keeps the slots, so they were all there already.
  have unfolded := returns
  rw [vectorInsert, if_neg (by omega)] at unfolded
  obtain ⟨larger, enlarged, rest⟩ := Option.bind_eq_some_iff.mp unfolded
  obtain ⟨shifted, looped, rest⟩ := Option.bind_eq_some_iff.mp rest
  obtain ⟨emptied, destroyed, copied⟩ := Option.bind_eq_some_iff.mp rest
  have kept : Kept larger next := inserting_kept looped destroyed copied
  have given := kept.allocated allocated
  obtain ⟨after, done, _, result⟩ := insert_refines element copies refines within enlarged given
  obtain rfl := Option.some.inj (done.symm.trans returns)
  exact ⟨result, (enlarge_grown refines.allocated enlarged given).1.capacious kept.capacity⟩

/-- `vector_resize`, which fills the vector with defaults or cuts it. -/
theorem Refines.resize_step (refines : Refines st values)
    (returns : vectorResize callbacks n st = some next)
    (allocated : next.array.length = next.capacity) :
    Refines next (values.take n ++
      List.replicate (n - values.length) callbacks.defaultConstructor) ∧ Capacious n st next := by
  rcases Nat.lt_or_ge st.size n with more | less
  · rw [vectorResize_larger more] at returns
    obtain ⟨roomy, reserved, filled⟩ := Option.bind_eq_some_iff.mp returns
    obtain ⟨full, looped, rfl⟩ := Option.map_eq_some_iff.mp filled
    have kept : Kept roomy full := defaults_kept looped
    have given := kept.allocated allocated
    obtain ⟨grown, size⟩ := vectorReserve_grown refines.allocated reserved given
    obtain ⟨after, done, result, _⟩ := (refines.grown grown size given).fill
      callbacks (show roomy.size ≤ n by omega) grown.room
    rw [size, looped] at done
    obtain rfl := Option.some.inj done
    -- Nothing is cut off.
    have whole : values.take n = values :=
      List.take_of_length_le (by rw [← refines.size]; omega)
    rw [whole]
    exact ⟨result, grown.capacious kept.capacity⟩
  · obtain ⟨after, done, result, same⟩ := resize_shrinks callbacks refines less
    obtain rfl := Option.some.inj (done.symm.trans returns)
    rw [Nat.sub_eq_zero_of_le (by rw [← refines.size]; exact less)]
    exact ⟨by simpa using result, .of_eq same⟩

/-- A call that returns, with all slots allocated, does to the contents what it does to a list. -/
theorem Refines.step (copies : ∀ value, callbacks.copyConstructor value = value)
    (refines : Refines st values) (returns : execute callbacks operation st = some next)
    (allocated : next.array.length = next.capacity) :
    Refines next (operation.onList callbacks.defaultConstructor values) ∧
      Capacious (operation.demand st.size) st next := by
  cases operation with
  | pushBack element => exact refines.pushBack_step copies returns allocated
  | popBack =>
    -- A call that returns has not failed its assertion.
    have occupied : 0 < st.size := by
      by_contra empty
      rw [execute, vectorPopBack, if_pos (by omega)] at returns
      cases returns
    obtain ⟨after, done, result, same⟩ := popBack_refines refines occupied
    obtain rfl := Option.some.inj (done.symm.trans returns)
    exact ⟨result, .of_eq same⟩
  | insert position element => exact refines.insert_step copies returns allocated
  | erase position =>
    have within : position < st.size := by
      by_contra outside
      rw [execute, vectorErase, if_pos (by omega)] at returns
      cases returns
    obtain ⟨after, done, result, same⟩ := erase_refines copies refines within
    obtain rfl := Option.some.inj (done.symm.trans returns)
    exact ⟨result, .of_eq same⟩
  | set position element =>
    have within : position < st.size := by
      by_contra outside
      rw [execute, vectorSet, if_pos (by omega)] at returns
      cases returns
    obtain ⟨after, done, result, same⟩ := set_refines element copies refines within
    obtain rfl := Option.some.inj (done.symm.trans returns)
    exact ⟨result, .of_eq same⟩
  | resize n => exact refines.resize_step returns allocated
  | reserve n =>
    obtain ⟨grown, size⟩ := vectorReserve_grown refines.allocated returns allocated
    exact ⟨refines.grown grown size allocated, grown.capacious rfl⟩
  | clear =>
    obtain ⟨after, done, result, same⟩ := clear_refines refines
    obtain rfl := Option.some.inj (done.symm.trans returns)
    exact ⟨result, .of_eq same⟩

/-- A call whose assertions hold returns, as long as the sizes are small enough. -/
theorem Refines.total (copies : ∀ value, callbacks.copyConstructor value = value)
    (refines : Refines st values) (asserted : operation.Asserted st.size) {bound : Nat}
    (small : bound ≤ 60) (within : operation.demand st.size ≤ 2 ^ bound) :
    ∃ next, execute callbacks operation st = some next ∧ next.array.length = next.capacity := by
  cases operation with
  | pushBack element =>
    obtain ⟨larger, enlarged, given⟩ := enlarge_total refines.allocated small within
    obtain ⟨next, done, _, result⟩ := pushBack_refines element copies refines enlarged
      given
    exact ⟨next, done, result.allocated⟩
  | popBack =>
    obtain ⟨next, done, result, _⟩ := popBack_refines refines asserted
    exact ⟨next, done, result.allocated⟩
  | insert position element =>
    obtain ⟨larger, enlarged, given⟩ := enlarge_total refines.allocated small within
    obtain ⟨next, done, _, result⟩ := insert_refines element copies refines asserted
      enlarged given
    exact ⟨next, done, result.allocated⟩
  | erase position =>
    obtain ⟨next, done, result, _⟩ := erase_refines copies refines asserted
    exact ⟨next, done, result.allocated⟩
  | set position element =>
    obtain ⟨next, done, result, _⟩ := set_refines element copies refines asserted
    exact ⟨next, done, result.allocated⟩
  | resize n =>
    rw [Operation.demand] at within
    rw [execute]
    -- A larger size may need more room; a smaller one never does.
    rcases Nat.lt_or_ge st.size n with more | less
    · obtain ⟨roomy, reserved, given⟩ := vectorReserve_total refines.allocated small within
      obtain ⟨grown, size⟩ := vectorReserve_grown refines.allocated reserved given
      obtain ⟨full, filled, result, _⟩ := (refines.grown grown size given).fill
        callbacks (show roomy.size ≤ n by omega) grown.room
      rw [size] at filled
      refine ⟨{ full with size := n }, ?_, result.allocated⟩
      rw [vectorResize_larger more, reserved, Option.bind_some, filled]
      rfl
    · obtain ⟨next, done, result, _⟩ := resize_shrinks callbacks refines less
      exact ⟨next, done, result.allocated⟩
  | reserve n => exact vectorReserve_total refines.allocated small within
  | clear =>
    obtain ⟨next, done, result, _⟩ := clear_refines refines
    exact ⟨next, done, result.allocated⟩

end Calls

section Runs

/-- A new vector holds the empty list. -/
theorem vectorCreate_refines : Refines (vectorCreate : State Value) [] where
  size := rfl
  shown i below := absurd below (by simp)
  room := Nat.zero_le _
  allocated := by rw [vectorCreate, List.length_replicate]; rfl
  power := ⟨3, rfl⟩

/-- A step whose argument is no element that the vector stores. -/
structure OutsideStep (callbacks : Callbacks Value) (st : State Value)
    (operation : Operation (Object Value)) (st' : State Value) : Prop
    extends Step callbacks st operation st' where
  outside : operation.Outside st

variable {trace : List (Transition (State Value) (Operation (Object Value)))} {final : State Value}

end Runs

/-- Copies of numbers, with 0 as the default. -/
def sampleCallbacks : Callbacks Nat := ⟨id, 0⟩

def samplePushed : State Nat where
  array := some ⟨0, 5⟩ :: List.replicate 7 none
  size := 1
  capacity := 8
  made := 1
  lives := [.creates ⟨0, 5⟩]

def sampleInserted : State Nat where
  array := some ⟨2, 7⟩ :: some ⟨1, 5⟩ :: List.replicate 6 none
  size := 2
  capacity := 8
  made := 3
  lives := [.creates ⟨0, 5⟩, .ends none, .reads ⟨0, 5⟩, .creates ⟨1, 5⟩, .ends (some ⟨0, 5⟩),
    .creates ⟨2, 7⟩]

/-- A call with an object of the caller is a step if it returns. -/
theorem outsideStep_of_foreign {Value : Type*} {callbacks : Callbacks Value}
    {st st' : State Value} {operation : Operation (Object Value)} {value : Value}
    (foreign : operation.argument = some (.foreign value))
    (returns : execute callbacks operation st = some st')
    (allocated : st'.array.length = st'.capacity) : OutsideStep callbacks st operation st' where
  valid object given := by
    rw [foreign] at given
    cases given
    trivial
  returns := returns
  allocated := allocated
  outside element given := by
    rw [foreign] at given
    cases given

/-- A 7 is inserted before a 5. -/
theorem sample_run : Run (OutsideStep sampleCallbacks) vectorCreate
    [⟨vectorCreate, .pushBack (.foreign 5), samplePushed⟩,
      ⟨samplePushed, .insert 0 (.foreign 7), sampleInserted⟩] sampleInserted := by
  have push : OutsideStep sampleCallbacks vectorCreate (.pushBack (.foreign 5)) samplePushed :=
    outsideStep_of_foreign rfl rfl rfl
  have insert : OutsideStep sampleCallbacks samplePushed (.insert 0 (.foreign 7)) sampleInserted :=
    outsideStep_of_foreign rfl rfl rfl
  exact (Run.start.next push).next insert

end SystemProgramming.Vector
