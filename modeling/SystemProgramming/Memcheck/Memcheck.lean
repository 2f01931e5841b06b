import SystemProgramming.Foundations.Runs
import Mathlib.Logic.Function.Basic

/-! A memory checker that keeps its allocations in a list, each with a node before the payload. -/

namespace SystemProgramming.Memcheck

/-- The node before a payload; `filename` and `instruction` are only pointers. -/
structure MetaData where
  requestSize : UInt64
  filename : UInt64
  instruction : UInt64
  next : UInt64
  deriving DecidableEq, Repr

/-- A block of the underlying `malloc`: a node, and the bytes behind it, undefined until written. -/
structure Block where
  node : MetaData
  payload : List (Option UInt8)
  deriving DecidableEq, Repr

/-- The blocks by their addresses, and the global variables; `NULL` is 0. -/
structure State where
  blocks : UInt64 → Option Block
  head : UInt64
  totalMemoryRequested : UInt64
  totalMemoryFreed : UInt64
  invalidAddresses : UInt64

/-- The size of a node. -/
def metaDataSize : UInt64 := 32

/-- The number of addresses. -/
def addressSpace : Nat := 18446744073709551616

/-- `mini_malloc`, with the answer of `malloc`, where it is called. -/
def miniMalloc (given : Option UInt64) (requestSize filename instruction : UInt64) (st : State) :
    UInt64 × State :=
  if requestSize = 0 then (0, st)
  else
    match given with
    | none => (0, st)
    | some newMeta =>
      let size := (requestSize + metaDataSize).toNat
      (newMeta + metaDataSize,
        { st with
          blocks := Function.update st.blocks newMeta (some
            { node := ⟨requestSize, filename, instruction, st.head⟩
              payload := List.replicate (size - metaDataSize.toNat) none })
          head := newMeta
          totalMemoryRequested := st.totalMemoryRequested + requestSize })

/-- `memset` of the first bytes of a payload to zero. -/
def State.clear (st : State) (payload : UInt64) (count : Nat) : State :=
  { st with
    blocks := Function.update st.blocks (payload - metaDataSize)
      ((st.blocks (payload - metaDataSize)).map fun block =>
        { block with
          payload := (List.replicate count (some 0)).take block.payload.length ++
            block.payload.drop count }) }

/-- `mini_calloc`. -/
def miniCalloc (given : Option UInt64) (numElements elementSize filename instruction : UInt64)
    (st : State) : UInt64 × State :=
  let mulRequestSize := numElements * elementSize
  let (mulRet, st) := miniMalloc given mulRequestSize filename instruction st
  if mulRet ≠ 0 then (mulRet, st.clear mulRet mulRequestSize.toNat) else (0, st)

/--
The loops that look for a node: the one before it, if it is found. Every turn is at another node, so
there are fewer turns than addresses.
-/
def search (blocks : UInt64 → Option Block) (target : UInt64) :
    Nat → UInt64 → UInt64 → Option (Option UInt64)
  | 0, _, _ => none
  | fuel + 1, it, before =>
    if it = 0 then some none
    else if it = target then some (some before)
    else
      match blocks it with
      | some block => search blocks target fuel block.node.next it
      | none => none

/-- The link to a node, which is `head` or in the node before it, is set. -/
def State.link (st : State) (before next : UInt64) : State :=
  if before = 0 then { st with head := next }
  else
    { st with
      blocks := Function.update st.blocks before ((st.blocks before).map fun block =>
        { block with node := { block.node with next := next } }) }

/-- `mini_free`. -/
def miniFree (payload : UInt64) (st : State) : Option State :=
  if payload = 0 then some st
  else
    let it := payload - metaDataSize
    match search st.blocks it addressSpace st.head 0 with
    | none => none
    | some none => some { st with invalidAddresses := st.invalidAddresses + 1 }
    | some (some before) =>
      (st.blocks it).map fun block =>
        let linked := st.link before block.node.next
        { linked with
          totalMemoryFreed := linked.totalMemoryFreed + block.node.requestSize
          blocks := Function.update linked.blocks it none }

/-- `realloc` moves the block that it is given, or leaves it where it is. -/
def State.move (st : State) (it reMeta : UInt64) (block : Block) : State :=
  { st with blocks := Function.update (Function.update st.blocks it none) reMeta (some block) }

/-- `mini_realloc`, with the answer of `malloc` or `realloc`, where that is called. -/
def miniRealloc (given : Option UInt64) (payload requestSize filename instruction : UInt64)
    (st : State) : Option (UInt64 × State) :=
  if payload = 0 then some (miniMalloc given requestSize filename instruction st)
  else if requestSize = 0 then (miniFree payload st).map fun st => (0, st)
  else
    let it := payload - metaDataSize
    match search st.blocks it addressSpace st.head 0 with
    | none => none
    | some none => some (0, { st with invalidAddresses := st.invalidAddresses + 1 })
    | some (some before) =>
      (st.blocks it).map fun block =>
        let oldSize := block.node.requestSize
        match given with
        | none => (0, st)
        | some reMeta =>
          let size := (metaDataSize + requestSize).toNat - metaDataSize.toNat
          let moved := st.move it reMeta
            { node := ⟨requestSize, filename, instruction, block.node.next⟩
              payload := block.payload.take size ++
                List.replicate (size - block.payload.length) none }
          let linked := moved.link before reMeta
          -- What is returned lies behind the old node, wherever the new one is.
          (it + metaDataSize,
            if oldSize ≥ requestSize then
              { linked with totalMemoryFreed := linked.totalMemoryFreed + (oldSize - requestSize) }
            else
              { linked with
                totalMemoryRequested := linked.totalMemoryRequested + (requestSize - oldSize) })

/-- A call of the checker. -/
inductive Operation where
  | malloc (requestSize filename instruction : UInt64)
  | calloc (numElements elementSize filename instruction : UInt64)
  | realloc (payload requestSize filename instruction : UInt64)
  | free (payload : UInt64)
  deriving DecidableEq, Repr

/-- A call, and the answer of the underlying allocator. -/
structure Call where
  operation : Operation
  given : Option UInt64
  deriving DecidableEq, Repr

/-- What a call does; `mini_free` returns nothing. -/
def execute (call : Call) (st : State) : Option (UInt64 × State) :=
  match call.operation with
  | .malloc requestSize filename instruction =>
    some (miniMalloc call.given requestSize filename instruction st)
  | .calloc numElements elementSize filename instruction =>
    some (miniCalloc call.given numElements elementSize filename instruction st)
  | .realloc payload requestSize filename instruction =>
    miniRealloc call.given payload requestSize filename instruction st
  | .free payload => (miniFree payload st).map fun st => (0, st)

/-- At first nothing is allocated. -/
def start : State where
  blocks := fun _ => none
  head := 0
  totalMemoryRequested := 0
  totalMemoryFreed := 0
  invalidAddresses := 0

/-- The bytes that a call asks for, as an integer. -/
def Operation.request : Operation → Nat
  | malloc requestSize _ _ | realloc _ requestSize _ _ => requestSize.toNat
  | calloc numElements elementSize _ _ => numElements.toNat * elementSize.toNat
  | free _ => 0

/-- The block that a call may give back to the allocator before it gets a new one. -/
def Operation.moves : Operation → Option UInt64
  | realloc payload _ _ _ => if payload = 0 then none else some (payload - metaDataSize)
  | malloc _ _ _ | calloc _ _ _ _ | free _ => none

/-- Two ranges of addresses have no address in common. -/
def Apart (start size other otherSize : Nat) : Prop :=
  start + size ≤ other ∨ other + otherSize ≤ start

/-- So many bytes with a node lie at an address beside all blocks in use, but the one that moves. -/
structure Free (st : State) (moves : Option UInt64) (request : Nat) (address : UInt64) : Prop where
  nonnull : address ≠ 0
  inside : address.toNat + (metaDataSize.toNat + request) ≤ addressSpace
  apart : ∀ other block, st.blocks other = some block → moves ≠ some other →
    Apart address.toNat (metaDataSize.toNat + request)
      other.toNat (metaDataSize.toNat + block.payload.length)

/-- The allocator gives only what is free. -/
def Fresh (st : State) (call : Call) : Prop :=
  ∀ address, call.given = some address →
    Free st call.operation.moves call.operation.request address

/-- A step is a call whose size does not wrap, with an answer that is fresh. -/
structure Step (st : State) (call : Call) (st' : State) : Prop where
  small : metaDataSize.toNat + call.operation.request < addressSpace
  fresh : Fresh st call
  returns : ∃ value, execute call st = some (value, st')

end SystemProgramming.Memcheck
