import Mathlib.Algebra.Order.Ring.Nat
import SystemProgramming.Foundations.Lifetimes
import SystemProgramming.Foundations.Loops
import SystemProgramming.Foundations.Runs

/-! The growing array of elements that are copied in, moved by copying, and destroyed. -/

namespace SystemProgramming.Vector

open Foundations Foundations.Lifetimes

/-- What a constructor made: the number of its call, and the value of the object. -/
structure Element (Value : Type*) where
  serial : Nat
  value : Value
  deriving DecidableEq, Repr

/-- What a caller points to: an object of its own, or an element of a vector. -/
inductive Object (Value : Type*) where
  | foreign (value : Value)
  | stored (element : Element Value)
  deriving DecidableEq, Repr

/-- The value of an object. -/
def Object.value {Value : Type*} : Object Value → Value
  | foreign value => value
  | stored element => element.value

/-- Copying an object reads it; only elements have a life that is kept track of. -/
def Object.reads {Value : Type*} : Object Value → List (Event (Element Value))
  | foreign _ => []
  | stored element => [.reads element]

/-- What the constructors make: a copy of a value, and a default. -/
structure Callbacks (Value : Type*) where
  copyConstructor : Value → Value
  defaultConstructor : Value

/--
A `struct vector`, with the slots its array was allocated with. A slot holds an element, or what the
allocation left there. The constructor and destructor calls so far are the lives of the elements.
-/
structure State (Value : Type*) where
  array : List (Option (Element Value))
  size : Nat
  capacity : Nat
  made : Nat
  lives : List (Event (Element Value))
  deriving DecidableEq, Repr

def initialCapacity : Nat := 8

def growthFactor : Nat := 2

/-- The loop of `get_new_capacity`, where `size_t` has 64 bits. -/
def grow : Nat → Nat → Nat → Option Nat
  | fuel, target, newCapacity =>
    if newCapacity < target then
      match fuel with
      -- After 64 turns the capacity is 0, and the loop goes on for ever.
      | 0 => none
      | fuel + 1 => grow fuel target (newCapacity * growthFactor % 2 ^ 64)
    else some newCapacity

/-- `get_new_capacity`. -/
def getNewCapacity (target : Nat) : Option Nat := grow 64 target 1

/-- The number of slots in an array of `capacity * sizeof(void *)` bytes. -/
def slots (capacity : Nat) : Nat := capacity * 8 % 2 ^ 64 / 8

section Functions

variable {Value : Type*}

/-- `vector_create`. -/
def vectorCreate : State Value where
  array := List.replicate (slots initialCapacity) none
  size := 0
  capacity := initialCapacity
  made := 0
  lives := []

namespace State

/-- `this->destructor(this->array[i])`. -/
def destroyAt (i : Nat) (st : State Value) : Option (State Value) :=
  st.array[i]?.map fun slot => { st with lives := st.lives ++ [.ends slot] }

/-- A constructor makes an element, which is stored in `this->array[i]`. -/
def construct (i : Nat) (value : Value) (reads : List (Event (Element Value))) (st : State Value) :
    Option (State Value) :=
  if i < st.array.length then some
    { st with
      array := st.array.set i (some ⟨st.made, value⟩)
      made := st.made + 1
      lives := st.lives ++ (reads ++ [.creates ⟨st.made, value⟩]) }
  else none

/-- `this->array[i] = this->copy_constructor(element)`. -/
def copyTo (callbacks : Callbacks Value) (i : Nat) (object : Object Value) (st : State Value) :
    Option (State Value) :=
  st.construct i (callbacks.copyConstructor object.value) object.reads

/--
`this->array[i] = this->copy_constructor(this->array[j])`. A copy of what an allocation left in a
slot is not defined.
-/
def copySlot (callbacks : Callbacks Value) (i j : Nat) (st : State Value) : Option (State Value) :=
  match st.array[j]? with
  | some (some element) => st.copyTo callbacks i (.stored element)
  | _ => none

/-- `this->array[i] = this->default_constructor()`. -/
def defaultAt (callbacks : Callbacks Value) (i : Nat) (st : State Value) : Option (State Value) :=
  st.construct i callbacks.defaultConstructor []

/-- The new capacity, and `realloc` of the array to it, which keeps the slots that fit. -/
def reallocate (capacity : Nat) (st : State Value) : State Value :=
  { st with
    capacity := capacity
    array := st.array.take (slots capacity) ++
      List.replicate (slots capacity - st.array.length) none }

end State

/-- `vector_reserve`. -/
def vectorReserve (n : Nat) (st : State Value) : Option (State Value) :=
  if st.capacity < n then (getNewCapacity n).map st.reallocate else some st

/-- `vector_resize`. -/
def vectorResize (callbacks : Callbacks Value) (n : Nat) (st : State Value) :
    Option (State Value) :=
  if n ≤ st.size then
    (forUp State.destroyAt (n + 1) st.size st).map fun st => { st with size := n }
  else if n ≤ st.capacity then
    (forUp (State.defaultAt callbacks) st.size n st).map fun st => { st with size := n }
  else
    (getNewCapacity n).bind fun capacity =>
      (forUp (State.defaultAt callbacks) st.size n (st.reallocate capacity)).map fun st =>
        { st with size := n }

/-- `vector_set`. -/
def vectorSet (callbacks : Callbacks Value) (position : Nat) (object : Object Value)
    (st : State Value) : Option (State Value) :=
  if st.size ≤ position then none
  else (st.destroyAt position).bind (State.copyTo callbacks position object)

/-- `this->size++`, and `vector_reserve` if the new size is over the capacity. -/
def State.enlarge (st : State Value) : Option (State Value) :=
  let larger := { st with size := st.size + 1 }
  if larger.capacity < larger.size then vectorReserve larger.size larger else some larger

/-- `vector_push_back`. -/
def vectorPushBack (callbacks : Callbacks Value) (object : Object Value) (st : State Value) :
    Option (State Value) :=
  st.enlarge.bind fun st => st.copyTo callbacks (st.size - 1) object

/-- `vector_pop_back`. -/
def vectorPopBack (st : State Value) : Option (State Value) :=
  if st.size = 0 then none else { st with size := st.size - 1 }.destroyAt (st.size - 1)

/-- The turn of the loop in `vector_insert` and in `vector_erase`: a slot gets a copy of another. -/
def State.replaceSlot (callbacks : Callbacks Value) (i j : Nat) (st : State Value) :
    Option (State Value) :=
  (st.destroyAt i).bind (State.copySlot callbacks i j)

/-- `vector_insert`. -/
def vectorInsert (callbacks : Callbacks Value) (position : Nat) (object : Object Value)
    (st : State Value) : Option (State Value) :=
  if st.size < position then none
  else
    st.enlarge.bind fun st =>
      (forDown (fun i => State.replaceSlot callbacks i (i - 1)) position (st.size - 1) st).bind
        fun st => (st.destroyAt position).bind (State.copyTo callbacks position object)

/-- `vector_erase`. -/
def vectorErase (callbacks : Callbacks Value) (position : Nat) (st : State Value) :
    Option (State Value) :=
  if st.size ≤ position then none
  else
    let shorter := { st with size := st.size - 1 }
    (forUp (fun i => State.replaceSlot callbacks i (i + 1)) position shorter.size shorter).bind
      fun st => st.destroyAt st.size

/-- `vector_clear`. -/
def vectorClear (st : State Value) : Option (State Value) :=
  (forUp State.destroyAt 0 st.size st).map fun st => { st with size := 0 }

/-- `vector_destroy`. -/
def vectorDestroy (st : State Value) : Option (State Value) :=
  (forUp State.destroyAt 0 st.size st).map fun st => { st with array := [] }

end Functions

/-- A call of a vector function that changes the vector. -/
inductive Operation (Argument : Type*) where
  | pushBack (element : Argument)
  | popBack
  | insert (position : Nat) (element : Argument)
  | erase (position : Nat)
  | set (position : Nat) (element : Argument)
  | resize (n : Nat)
  | reserve (n : Nat)
  | clear
  deriving DecidableEq, Repr

variable {Value : Type*}

/-- What a call does. -/
def execute (callbacks : Callbacks Value) :
    Operation (Object Value) → State Value → Option (State Value)
  | .pushBack element => vectorPushBack callbacks element
  | .popBack => vectorPopBack
  | .insert position element => vectorInsert callbacks position element
  | .erase position => vectorErase callbacks position
  | .set position element => vectorSet callbacks position element
  | .resize n => vectorResize callbacks n
  | .reserve n => vectorReserve n
  | .clear => vectorClear

/-- The object that a call is given, if it is given one. -/
def Operation.argument {Argument : Type*} : Operation Argument → Option Argument
  | pushBack element | insert _ element | set _ element => some element
  | popBack | erase _ | resize _ | reserve _ | clear => none

/-- A caller may point to an object of its own, or to an element that is alive. -/
def Object.Valid (st : State Value) : Object Value → Prop
  | .foreign _ => True
  | .stored element => Alive st.lives element

/--
A step is a call that returns, with a valid argument, where the allocator gave as many slots as the
capacity says.
-/
structure Step (callbacks : Callbacks Value) (st : State Value) (operation : Operation (Object Value))
    (st' : State Value) : Prop where
  valid : ∀ object, operation.argument = some object → object.Valid st
  returns : execute callbacks operation st = some st'
  allocated : st'.array.length = st'.capacity

end SystemProgramming.Vector
