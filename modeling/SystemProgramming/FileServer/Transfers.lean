import SystemProgramming.Foundations.Runs
import SystemProgramming.FileServer.Socket
import Mathlib.Data.List.Count

/-! The receiving loops, read by read: what they write, what they count, and how they end. -/

namespace SystemProgramming.FileServer

open Foundations

/-- What one `read` on the socket gives. -/
inductive ReadResult where
  | bytes (data : List UInt8)
  | ended
  | interrupted
  | failed
  deriving DecidableEq, Repr

/-- The bytes that come with a result. -/
def ReadResult.data : ReadResult → List UInt8
  | .bytes data => data
  | _ => []

/-- The loop of the server's `PUT`, and the one of `handle_get` in the client. -/
inductive Side where
  | server
  | client
  deriving DecidableEq, Repr

/--
The variables of a loop: `total_bytes_read` or `total_read_num`, `max_size`, and `blocksize` or
`block_size`.
-/
structure Counters where
  total : Nat
  maxSize : Nat
  blocksize : Nat
  deriving DecidableEq, Repr

/-- Where a loop is: in `read_all_from_socket`, at its end, or in an `fwrite` of too many bytes. -/
inductive Phase where
  | reading (buf : List UInt8) (remainByte : Nat)
  | finished
  | overread
  deriving DecidableEq, Repr

/-- A transfer: the variables, the bytes in the local file, and where the loop is. -/
structure Transfer where
  counters : Counters
  file : List UInt8
  phase : Phase
  deriving DecidableEq, Repr

namespace Side

/-- The condition of the loop. -/
def goesOn : Side → Counters → Bool
  | server, c => c.total < c.maxSize
  | client, c => 0 < c.maxSize

/-- The block is cut at the limit. -/
def shrink : Side → Counters → Counters
  | server, c => if c.maxSize - c.total < c.blocksize then { c with blocksize := c.maxSize - c.total } else c
  | client, c => { c with blocksize := min c.blocksize c.maxSize }

/-- The number of a block is counted, in the arithmetic of a `size_t`. -/
def count : Side → Counters → Nat → Counters
  | server, c, bytesRead => { c with total := (c.total + bytesRead) % sizeRange }
  | client, c, readNum =>
    { c with
      maxSize := (c.maxSize + sizeRange - readNum) % sizeRange
      total := (c.total + readNum) % sizeRange }

/-- The head of the loop, and the call of `read_all_from_socket` if the loop goes on. -/
def enter (side : Side) (c : Counters) (file : List UInt8) : Transfer :=
  if side.goesOn c then ⟨side.shrink c, file, .reading [] (side.shrink c).blocksize⟩
  else ⟨c, file, .finished⟩

/-- What the loop does with a block: an empty one ends it, and any other is written and counted. -/
def deliver (side : Side) (transfer : Transfer) (buf : List UInt8) : Transfer :=
  if buf = [] then { transfer with phase := .finished }
  else side.enter (side.count transfer.counters buf.length) (transfer.file ++ buf)

/-- The loop at its start, for a file of a declared size. -/
def start (side : Side) (fileSize : Nat) : Transfer :=
  side.enter ⟨0, (fileSize + 5) % sizeRange, blockSize⟩ []

/-- How many bytes may still come. -/
def left : Side → Counters → Nat
  | server, c => c.maxSize - c.total
  | client, c => c.maxSize

end Side

/-- One `read` in the loop. After an error, `read_all_from_socket` gives up its block. -/
inductive ReadStep (side : Side) : Transfer → ReadResult → Transfer → Prop
  | piece {transfer : Transfer} {buf data : List UInt8} {remainByte : Nat} :
      transfer.phase = .reading buf remainByte → data ≠ [] → data.length < remainByte →
      ReadStep side transfer (.bytes data)
        { transfer with phase := .reading (buf ++ data) (remainByte - data.length) }
  | whole {transfer : Transfer} {buf data : List UInt8} {remainByte : Nat} :
      transfer.phase = .reading buf remainByte → data ≠ [] → data.length = remainByte →
      ReadStep side transfer (.bytes data) (side.deliver transfer (buf ++ data))
  | ended {transfer : Transfer} {buf : List UInt8} {remainByte : Nat} :
      transfer.phase = .reading buf remainByte →
      ReadStep side transfer .ended (side.deliver transfer buf)
  | interrupted {transfer : Transfer} {buf : List UInt8} {remainByte : Nat} :
      transfer.phase = .reading buf remainByte → ReadStep side transfer .interrupted transfer
  -- The -1 becomes the largest `size_t`, which `fwrite` is given, and which is counted.
  | failed {transfer : Transfer} {buf : List UInt8} {remainByte : Nat} :
      transfer.phase = .reading buf remainByte →
      ReadStep side transfer .failed
        { transfer with
          counters := side.count transfer.counters (sizeRange - 1)
          phase := .overread }

/-- The reads of a transfer. -/
abbrev Reads := List (Transition Transfer ReadResult)

/-- All bytes that have come. -/
def received (trace : Reads) : List UInt8 := trace.flatMap fun taken => taken.action.data

/-- The reads that were not only interrupted by a signal. -/
def answers (trace : Reads) : Nat := trace.countP fun taken => taken.action ≠ .interrupted

/-- The file has all bytes that have come, except for those of the block that is being read. -/
def Transfer.Exact (transfer : Transfer) (bytes : List UInt8) : Prop :=
  match transfer.phase with
  | .reading buf _ => transfer.file ++ buf = bytes
  | .finished => transfer.file = bytes
  | .overread => False

/--
What the loops promise: exactly what has come is written, not more than that is counted, only so many
reads are answered, each for at least one byte, and an error ends in a transfer that has failed.
-/
structure Survives (fileSize : Nat) (trace : Reads) (final : Transfer) : Prop where
  exact : final.Exact (received trace)
  counted : final.counters.total ≤ (received trace).length
  ends : answers trace ≤ 2 * ((fileSize + 5) % sizeRange) + 1
  asks : ∀ buf remainByte, final.phase = .reading buf remainByte → 0 < remainByte
  failure : (∃ taken ∈ trace, taken.action = .failed) →
    final.phase = .finished ∧ final.counters.total ≠ fileSize

/-- The bytes in the file are those that were counted, and the block in the buffer has room. -/
structure Receiving (side : Side) (limit : Nat) (bytes : List UInt8) (transfer : Transfer) : Prop where
  bounded : limit < sizeRange
  sum : transfer.counters.total + side.left transfer.counters = limit
  file : transfer.file.length = transfer.counters.total
  exact : transfer.Exact bytes
  block : ∀ buf remainByte, transfer.phase = .reading buf remainByte →
    0 < remainByte ∧ buf.length + remainByte ≤ side.left transfer.counters ∧
      0 < transfer.counters.blocksize

/-- How many answers can still come, at most: two for each byte, and one for what is in the buffer. -/
def Transfer.rank (side : Side) (transfer : Transfer) : Nat :=
  match transfer.phase with
  | .reading buf _ => 2 * (side.left transfer.counters - buf.length) + (min buf.length 1 + 1)
  | _ => 0

section Loops

variable {side : Side} {c : Counters} {limit fileSize : Nat} {file bytes buf : List UInt8}
  {transfer after : Transfer} {result : ReadResult} {trace : Reads} {final : Transfer}

theorem Transfer.exact_reading {remainByte : Nat} (phase : transfer.phase = .reading buf remainByte) :
    transfer.Exact bytes ↔ transfer.file ++ buf = bytes := by
  rw [Transfer.Exact, phase]

theorem Transfer.rank_reading {remainByte : Nat} (phase : transfer.phase = .reading buf remainByte) :
    transfer.rank side =
      2 * (side.left transfer.counters - buf.length) + (min buf.length 1 + 1) := by
  rw [Transfer.rank, phase]

/-- The loop goes on as long as bytes may come. -/
theorem goesOn_iff : side.goesOn c = true ↔ 0 < side.left c := by
  cases side with
  | server => simp [Side.goesOn, Side.left]
  | client => simp [Side.goesOn, Side.left]

/-- Cutting a block changes no count, and leaves no more than may come. -/
theorem shrink_spec (some : 0 < side.left c) (positive : 0 < c.blocksize) :
    (side.shrink c).total = c.total ∧ side.left (side.shrink c) = side.left c ∧
      0 < (side.shrink c).blocksize ∧ (side.shrink c).blocksize ≤ side.left c := by
  cases side with
  | server =>
    simp only [Side.left, Side.shrink] at some ⊢
    -- The block is larger than what is left, or it is not.
    split
    · exact ⟨rfl, rfl, some, Nat.le_refl _⟩
    · exact ⟨rfl, rfl, positive, by omega⟩
  | client =>
    simp only [Side.left, Side.shrink] at some ⊢
    exact ⟨trivial, trivial, by omega, Nat.min_le_right _ _⟩

/-- A subtraction that stays above zero is the same in a fixed width. -/
theorem sub_wrapped {range value amount : Nat} (within : amount ≤ value) (small : value < range) :
    (value + range - amount) % range = value - amount := by
  rw [Nat.sub_add_comm within, Nat.add_mod_right]
  exact Nat.mod_eq_of_lt (Nat.lt_of_le_of_lt (Nat.sub_le _ _) small)

/-- Counting a block that may come does not wrap around. -/
theorem count_spec {bytesRead : Nat} (small : c.total + side.left c < sizeRange)
    (within : bytesRead ≤ side.left c) :
    (side.count c bytesRead).total = c.total + bytesRead ∧
      side.left (side.count c bytesRead) = side.left c - bytesRead ∧
      (side.count c bytesRead).blocksize = c.blocksize := by
  have total : (c.total + bytesRead) % sizeRange = c.total + bytesRead :=
    Nat.mod_eq_of_lt (Nat.lt_of_le_of_lt (Nat.add_le_add_left within _) small)
  cases side with
  | server =>
    simp only [Side.left, Side.count, total]
    exact ⟨trivial, Nat.sub_add_eq _ _ _, trivial⟩
  | client =>
    have less := sub_wrapped within (Nat.lt_of_le_of_lt (Nat.le_add_left _ c.total) small)
    rw [Side.left] at less
    rw [Side.count, Side.left, Side.left, total, less]
    exact ⟨rfl, rfl, rfl⟩

/-- At the head of the loop, nothing is in the buffer. -/
theorem Receiving.enter (bounded : limit < sizeRange) (sum : c.total + side.left c = limit)
    (length : file.length = c.total) (positive : 0 < c.blocksize) :
    Receiving side limit file (side.enter c file) := by
  rw [Side.enter]
  split
  · rename_i onward
    obtain ⟨total, left, some, within⟩ := shrink_spec (goesOn_iff.mp onward) positive
    exact {
      bounded := bounded
      sum := by rw [total, left, sum]
      file := by rw [total, length]
      exact := List.append_nil file
      block := fun buf remainByte same => by
        cases same
        exact ⟨some, by rw [left, List.length_nil, Nat.zero_add]; exact within, some⟩ }
  · exact ⟨bounded, sum, length, rfl, nofun⟩

/-- The rank at the head of the loop is bounded by what may come. -/
theorem rank_enter (positive : 0 < c.blocksize) :
    (side.enter c file).rank side ≤ 2 * side.left c + 1 := by
  rw [Side.enter]
  split
  · rename_i onward
    obtain ⟨_, left, _⟩ := shrink_spec (goesOn_iff.mp onward) positive
    rw [Transfer.rank_reading rfl, left, List.length_nil]
    exact Nat.le_refl _
  · exact Nat.zero_le _

/-- An empty block ends the loop, and the file stays as it is. -/
theorem Receiving.stop (receiving : Receiving side limit bytes transfer) :
    Receiving side limit (transfer.file ++ []) (side.deliver transfer []) ∧
      (side.deliver transfer []).rank side = 0 := by
  rw [Side.deliver, if_pos rfl, List.append_nil]
  exact ⟨⟨receiving.bounded, receiving.sum, receiving.file, rfl, nofun⟩, rfl⟩

/-- A block that is written and counted keeps the file exact, and takes away from what may come. -/
theorem Receiving.deliver (receiving : Receiving side limit bytes transfer)
    (positive : 0 < transfer.counters.blocksize)
    (within : buf.length ≤ side.left transfer.counters) (some : buf ≠ []) :
    Receiving side limit (transfer.file ++ buf) (side.deliver transfer buf) ∧
      (side.deliver transfer buf).rank side ≤
        2 * (side.left transfer.counters - buf.length) + 1 := by
  have sum := receiving.sum
  have bounded := receiving.bounded
  obtain ⟨total, left, same⟩ := @count_spec side transfer.counters buf.length (by omega) within
  have size : 0 < (side.count transfer.counters buf.length).blocksize := by rwa [same]
  rw [Side.deliver, if_neg some]
  constructor
  · refine .enter bounded ?_ ?_ size
    · rw [total, left]
      omega
    · rw [List.length_append, total, receiving.file]
  · have rank := @rank_enter side _ (transfer.file ++ buf) size
    rwa [left] at rank

/-- A read without an error keeps the file exact, and every answer lowers the rank. -/
theorem Receiving.step (receiving : Receiving side limit bytes transfer)
    (step : ReadStep side transfer result after) (fine : result ≠ .failed) :
    Receiving side limit (bytes ++ result.data) after ∧
      after.rank side + (if result ≠ .interrupted then 1 else 0) ≤ transfer.rank side := by
  cases step with
  | @piece buf data remainByte phase some less =>
    obtain ⟨_, within, positive⟩ := receiving.block _ _ phase
    have exact := (Transfer.exact_reading phase).mp receiving.exact
    have longer := List.length_pos_iff.mpr some
    constructor
    · refine ⟨receiving.bounded, receiving.sum, receiving.file, ?_, fun later remain same => ?_⟩
      · rw [ReadResult.data, ← exact, List.append_assoc]
        exact (Transfer.exact_reading rfl).mpr rfl
      · cases same
        rw [List.length_append]
        have room : buf.length + data.length + (remainByte - data.length) = buf.length + remainByte := by
          omega
        rw [room]
        exact ⟨by omega, within, positive⟩
    · -- At least one byte less may come.
      rw [Transfer.rank_reading rfl, Transfer.rank_reading phase, List.length_append, if_pos nofun]
      dsimp only
      omega
  | @whole buf data remainByte phase some same =>
    obtain ⟨_, within, positive⟩ := receiving.block _ _ phase
    have exact := (Transfer.exact_reading phase).mp receiving.exact
    have longer := List.length_pos_iff.mpr some
    have filled : buf ++ data ≠ [] := List.append_ne_nil_of_right_ne_nil _ some
    have length : (buf ++ data).length = buf.length + data.length := List.length_append
    obtain ⟨kept, rank⟩ := receiving.deliver positive (by omega) filled
    rw [← List.append_assoc, exact] at kept
    refine ⟨kept, ?_⟩
    rw [Transfer.rank_reading phase, if_pos nofun]
    omega
  | @ended buf remainByte phase =>
    obtain ⟨_, within, positive⟩ := receiving.block _ _ phase
    have exact := (Transfer.exact_reading phase).mp receiving.exact
    rw [ReadResult.data, List.append_nil, ← exact, Transfer.rank_reading phase, if_pos nofun]
    · -- The end of the stream ends the loop, unless there is a block to write first.
      by_cases none : buf = []
      · subst none
        obtain ⟨kept, rank⟩ := receiving.stop
        exact ⟨kept, by omega⟩
      · have longer := List.length_pos_iff.mpr none
        obtain ⟨kept, rank⟩ := receiving.deliver positive (by omega) none
        exact ⟨kept, by omega⟩
    · nofun
  | interrupted =>
    have empty : ReadResult.interrupted.data = [] := rfl
    rw [empty, List.append_nil]
    exact ⟨receiving, Nat.le_refl _⟩
  | failed => exact absurd rfl fine

/-- At the start, all of the limit is left. -/
theorem left_start {limit : Nat} : side.left ⟨0, limit, blockSize⟩ = limit := by
  cases side
  · exact Nat.sub_zero limit
  · rfl

/-- At the start everything may still come. -/
theorem start_receiving : Receiving side ((fileSize + 5) % sizeRange) [] (side.start fileSize) ∧
    (side.start fileSize).rank side ≤ 2 * ((fileSize + 5) % sizeRange) + 1 := by
  have bounded : (fileSize + 5) % sizeRange < sizeRange := Nat.mod_lt _ (Nat.two_pow_pos 64)
  have positive : 0 < blockSize := by decide
  rw [Side.start]
  generalize (fileSize + 5) % sizeRange = limit at bounded ⊢
  have rank := @rank_enter side ⟨0, limit, blockSize⟩ [] positive
  rw [left_start] at rank
  exact ⟨.enter bounded (by rw [left_start]; exact Nat.zero_add limit) rfl positive, rank⟩

/-- Without an error, the file stays exact, and every answer takes away from those that can come. -/
theorem receiving_of_run (run : Run (ReadStep side) (side.start fileSize) trace final)
    (fine : ∀ taken ∈ trace, taken.action ≠ .failed) :
    Receiving side ((fileSize + 5) % sizeRange) (received trace) final ∧
      answers trace + final.rank side ≤ 2 * ((fileSize + 5) % sizeRange) + 1 := by
  refine @Run.history _ _ _ _ _ _ (fun trace transfer => (∀ taken ∈ trace, taken.action ≠ .failed) →
    Receiving side ((fileSize + 5) % sizeRange) (received trace) transfer ∧
      answers trace + transfer.rank side ≤ 2 * ((fileSize + 5) % sizeRange) + 1) run ?_ ?_ fine
  · intro _
    obtain ⟨receiving, rank⟩ := @start_receiving side fileSize
    refine ⟨receiving, ?_⟩
    rw [answers, List.countP_nil, Nat.zero_add]
    exact rank
  · intro trace before result after earlier step fine
    obtain ⟨receiving, bound⟩ := earlier fun taken member => fine taken (List.mem_append_left _ member)
    have good : result ≠ .failed := fine ⟨before, result, after⟩ (by simp)
    obtain ⟨kept, rank⟩ := receiving.step step good
    -- The last answer adds its bytes, and it counts unless it was interrupted.
    have bytes : received (trace ++ [⟨before, result, after⟩]) = received trace ++ result.data := by
      simp [received]
    have more : answers (trace ++ [⟨before, result, after⟩]) =
        answers trace + if result ≠ .interrupted then 1 else 0 := by
      rw [answers, List.countP_append, List.countP_singleton, ← answers]
      simp
    rw [bytes, more]
    exact ⟨kept, by omega⟩

/-- After an error, the loop is in an `fwrite` that it never should have called. -/
theorem overread_of_failed (run : Run (ReadStep side) (side.start fileSize) trace final)
    (error : ∃ taken ∈ trace, taken.action = .failed) : final.phase = .overread := by
  refine @Run.history _ _ _ _ _ _ (fun trace transfer =>
    (∃ taken ∈ trace, taken.action = .failed) → transfer.phase = .overread) run ?_ ?_ error
  · intro none
    obtain ⟨_, impossible, _⟩ := none
    cases impossible
  · intro trace before result after earlier step error
    obtain ⟨taken, member, failed⟩ := error
    rcases List.mem_append.mp member with old | new
    · -- There is no step from that state.
      have stuck := earlier ⟨taken, old, failed⟩
      cases step with
      | piece phase | whole phase | ended phase | interrupted phase | failed phase =>
        exact absurd (phase.symm.trans stuck) (by simp)
    · rw [List.mem_singleton.mp new] at failed
      cases step with
      | failed => rfl
      | _ => cases failed

/-- What is counted has come. -/
theorem Receiving.counted (receiving : Receiving side limit bytes transfer) :
    transfer.counters.total ≤ bytes.length := by
  rw [← receiving.file]
  have exact := receiving.exact
  cases phase : transfer.phase with
  | reading buf remainByte =>
    rw [← (Transfer.exact_reading phase).mp exact, List.length_append]
    exact Nat.le_add_right _ _
  | finished =>
    rw [Transfer.Exact, phase] at exact
    exact exact ▸ Nat.le_refl _
  | overread =>
    rw [Transfer.Exact, phase] at exact
    cases exact

/--
For both loops, every declared size and every sequence of results of `read`: the transfer writes
exactly what has come, counts no more, comes to an end, and fails after an error, if and only if
there is no error.
-/
theorem transfer_survives_iff (run : Run (ReadStep side) (side.start fileSize) trace final) :
    Survives fileSize trace final ↔ ∀ taken ∈ trace, taken.action ≠ .failed := by
  constructor
  · intro survives taken member failed
    -- The loop would have had to finish.
    have finished := (survives.failure ⟨taken, member, failed⟩).1
    rw [overread_of_failed run ⟨taken, member, failed⟩] at finished
    cases finished
  · intro fine
    obtain ⟨receiving, bound⟩ := receiving_of_run run fine
    refine ⟨receiving.exact, receiving.counted, by omega,
      fun buf remainByte phase => (receiving.block buf remainByte phase).1, fun error => ?_⟩
    obtain ⟨taken, member, failed⟩ := error
    exact absurd failed (fine taken member)

end Loops

/-- A loop that asks for up to six bytes, and has nothing yet. -/
theorem start_sample (side : Side) :
    side.start 1 = ⟨side.shrink ⟨0, 6, blockSize⟩, [], .reading [] 6⟩ := by
  cases side <;> decide +kernel

/-- One byte comes, as declared, and then the end of the stream, which is seen twice. -/
theorem transfer_survives_iff_sample : ∃ trace final,
    Run (ReadStep .server) (Side.start .server 1) trace final ∧ received trace = [120] ∧
      Survives 1 trace final := by
  have piece := @ReadStep.piece .server (Side.start .server 1) [] [120] 6 (by rw [start_sample])
    (by decide) (by decide)
  have block := @ReadStep.ended .server
    { Side.start .server 1 with phase := .reading ([] ++ [120]) 5 } [120] 5 rfl
  have run := (Run.start.next piece).next block
  refine ⟨_, _, run, rfl, (transfer_survives_iff run).mpr fun taken member => ?_⟩
  simp only [List.nil_append, List.cons_append, List.mem_cons, List.not_mem_nil, or_false] at member
  rcases member with rfl | rfl <;> decide

/-- An error in the first read is counted as the largest `size_t`, and no transfer survives it. -/
theorem error_counted (side : Side) : ∃ trace final,
    Run (ReadStep side) (side.start 1) trace final ∧ final.counters.total = 2 ^ 64 - 1 ∧
      ¬ Survives 1 trace final := by
  have error := @ReadStep.failed side (side.start 1) [] 6 (by rw [start_sample])
  refine ⟨_, _, Run.start.next error, ?_, fun survives => ?_⟩
  · rw [start_sample]
    cases side <;> decide +kernel
  · -- There is no exact file in an `fwrite` of more bytes than the buffer has.
    exact survives.exact

/-- Both loops count an error as so many bytes. -/
theorem transfer_fails : (∃ trace final, Run (ReadStep .server) (Side.start .server 1) trace final ∧
      final.counters.total = 2 ^ 64 - 1 ∧ ¬ Survives 1 trace final) ∧
    ∃ trace final, Run (ReadStep .client) (Side.start .client 1) trace final ∧
      final.counters.total = 2 ^ 64 - 1 ∧ ¬ Survives 1 trace final :=
  ⟨error_counted .server, error_counted .client⟩

section Executions

variable {side : Side} {c : Counters} {file buf stream : List UInt8} {transfer : Transfer}
  {fragments : List Fragment} {remainByte fuel : Nat}

/-- What the loop does with a block does not depend on how the block was read. -/
theorem deliver_phase {phase : Phase} :
    side.deliver { transfer with phase := phase } buf = side.deliver transfer buf := rfl

/--
What is read and what is left are the stream, not more is read than is asked for, and the number that
is returned is what is read.
-/
theorem readAllFromSocket_parts :
    (readAllFromSocket fragments stream remainByte).bytes ++
        (readAllFromSocket fragments stream remainByte).stream = stream ∧
      (readAllFromSocket fragments stream remainByte).bytes.length ≤ remainByte ∧
      ∀ count, (readAllFromSocket fragments stream remainByte).returned = some count →
        (readAllFromSocket fragments stream remainByte).bytes.length = count := by
  induction fragments generalizing stream remainByte with
  | nil =>
    refine ⟨List.take_append_drop _ _, List.length_take_le _ _, fun count returned => ?_⟩
    rw [readAllFromSocket] at returned
    exact Option.some.inj returned
  | cons fragment fragments ih =>
    unfold readAllFromSocket
    split
    · exact ⟨rfl, Nat.zero_le _, fun count returned => Option.some.inj returned⟩
    · cases fragment with
      | interrupted => exact ih
      | failed =>
        refine ⟨rfl, Nat.zero_le _, fun count returned => ?_⟩
        cases returned
      | moves more =>
        dsimp only
        split
        · exact ⟨rfl, Nat.zero_le _, fun count returned => Option.some.inj returned⟩
        · -- The later calls read on behind the piece of this one.
          obtain ⟨parts, most, length⟩ := @ih
            (stream.drop (stream.take (min (more + 1) remainByte)).length)
            (remainByte - (stream.take (min (more + 1) remainByte)).length)
          refine ⟨?_, ?_, fun count returned => ?_⟩
          · rw [List.append_assoc, parts]
            exact piece_append_drop
          · have first := List.length_take_le (min (more + 1) remainByte) stream
            rw [List.length_append]
            omega
          · obtain ⟨rest, found, rfl⟩ := Option.map_eq_some_iff.mp returned
            rw [List.length_append, length rest found]

/-- How the loop goes on after a block, or after an error in it. -/
def Received.LeadsTo (read : Received) (side : Side) (transfer : Transfer) (buf : List UInt8)
    (final : Transfer) : Prop :=
  match read.returned with
  | none => final.phase = .overread
  | some _ => final = side.deliver transfer (buf ++ read.bytes)

/-- The calls of `read_all_from_socket` are steps that lead to the end of its block, or to an error. -/
theorem readAllFromSocket_run (reading : transfer.phase = .reading buf remainByte)
    (positive : 0 < remainByte) :
    ∃ trace final, Run (ReadStep side) transfer trace final ∧
      (readAllFromSocket fragments stream remainByte).LeadsTo side transfer buf final := by
  induction fragments generalizing stream remainByte buf transfer with
  | nil =>
    rw [readAllFromSocket]
    rcases Nat.lt_or_ge stream.length remainByte with short | long
    · -- The stream ends before the block does.
      rw [List.take_of_length_le short.le]
      by_cases none : stream = []
      · subst none
        refine ⟨_, _, Run.start.next (.ended reading), ?_⟩
        rw [Received.LeadsTo, List.append_nil]
      · have piece := @ReadStep.piece side transfer buf stream remainByte reading none short
        exact ⟨_, _, (Run.start.next piece).next (.ended rfl), deliver_phase⟩
    · have length : (stream.take remainByte).length = remainByte := List.length_take_of_le long
      have filled : stream.take remainByte ≠ [] := List.length_pos_iff.mp (by omega)
      exact ⟨_, _, Run.start.next (.whole reading filled length), rfl⟩
  | cons fragment fragments ih =>
    unfold readAllFromSocket
    rw [if_neg (by omega)]
    cases fragment with
    | interrupted =>
      obtain ⟨trace, final, run, ends⟩ := @ih buf stream transfer remainByte reading positive
      exact ⟨_, _, .cons (.interrupted reading) run, ends⟩
    | failed => exact ⟨_, _, Run.start.next (.failed reading), rfl⟩
    | moves more =>
      dsimp only
      split
      · -- The call has found the end of the stream.
        refine ⟨_, _, Run.start.next (.ended reading), ?_⟩
        rw [Received.LeadsTo, List.append_nil]
      · rename_i filled
        generalize piece : stream.take (min (more + 1) remainByte) = got at filled ⊢
        have length : got.length ≤ remainByte := by
          rw [← piece, List.length_take]
          omega
        rcases Nat.lt_or_eq_of_le length with less | same
        · -- The rest of the block is read by the later calls.
          obtain ⟨trace, final, run, ends⟩ := @ih (buf ++ got) (stream.drop got.length)
            { transfer with phase := .reading (buf ++ got) (remainByte - got.length) }
            (remainByte - got.length) rfl (by omega)
          refine ⟨_, _, .cons (.piece reading filled less) run, ?_⟩
          rw [Received.LeadsTo] at ends ⊢
          cases returned : (readAllFromSocket fragments (stream.drop got.length)
              (remainByte - got.length)).returned with
          | none =>
            rw [returned] at ends
            exact ends
          | some count =>
            rw [returned, deliver_phase, List.append_assoc] at ends
            exact ends
        · -- The block is complete, so there is no other call.
          refine ⟨_, _, Run.start.next (.whole reading filled same), ?_⟩
          have stop : readAllFromSocket fragments (stream.drop got.length) (remainByte - got.length) =
              ⟨some 0, [], stream.drop got.length, fragments⟩ := by
            rw [same, Nat.sub_self]
            cases fragments <;> simp [readAllFromSocket]
          rw [stop, List.append_nil]
          rfl

/-- The next block is as large as the source's loop makes it from the start. -/
theorem blocksize_shrink (most : c.blocksize ≤ blockSize)
    (least : min blockSize (side.left c) ≤ c.blocksize) :
    (side.shrink c).blocksize = min blockSize (side.left c) := by
  cases side with
  | server =>
    simp only [Side.shrink, Side.left] at least ⊢
    split
    · dsimp only
      omega
    · omega
  | client =>
    simp only [Side.shrink, Side.left] at least ⊢
    omega

/--
The receiving loop of the model is a run of these steps: it has no result exactly where the run ends
in an error, and otherwise the run ends with the same bytes in the file.
-/
theorem receiveBlocks_run (enough : stream.length < fuel)
    (small : c.total + side.left c < sizeRange) (most : c.blocksize ≤ blockSize)
    (least : min blockSize (side.left c) ≤ c.blocksize) (positive : 0 < c.blocksize) :
    ∃ trace final, Run (ReadStep side) (side.enter c file) trace final ∧
      match receiveBlocks fuel fragments stream (side.left c) with
      | none => final.phase = .overread
      | some (content, _, _) => final.phase = .finished ∧ final.file = file ++ content := by
  induction fuel generalizing fragments stream c file with
  | zero => omega
  | succ fuel ih =>
    by_cases none : side.left c = 0
    · -- Nothing may come, so the loop ends at its head.
      have ended : side.enter c file = ⟨c, file, .finished⟩ := by
        rw [Side.enter, if_neg (by rw [goesOn_iff]; omega)]
      refine ⟨_, _, .start, ?_⟩
      rw [none, ended, receiveBlocks, if_pos rfl]
      exact ⟨rfl, (List.append_nil file).symm⟩
    · obtain ⟨total, left, some, within⟩ := @shrink_spec side c (by omega) positive
      have block := blocksize_shrink most least
      have head : side.enter c file = ⟨side.shrink c, file, .reading [] (side.shrink c).blocksize⟩ := by
        rw [Side.enter, if_pos (goesOn_iff.mpr (by omega))]
      obtain ⟨trace, final, run, ends⟩ := @readAllFromSocket_run side [] stream (side.enter c file)
        fragments (side.shrink c).blocksize (by rw [head]) some
      obtain ⟨parts, room, length⟩ := @readAllFromSocket_parts stream fragments (side.shrink c).blocksize
      rw [block] at ends parts room length
      simp only [receiveBlocks, if_neg none]
      generalize readAllFromSocket fragments stream (min blockSize (side.left c)) = read at *
      rw [Received.LeadsTo] at ends
      cases returned : read.returned with
      | none =>
        rw [returned] at ends
        exact ⟨trace, final, run, ends⟩
      | some count =>
        rw [returned, List.nil_append, head] at ends
        dsimp only at ends
        have same := length count returned
        cases count with
        | zero =>
          -- An empty block ends the loop.
          rw [List.length_eq_zero_iff.mp same, Side.deliver, if_pos rfl] at ends
          refine ⟨trace, final, run, ?_⟩
          rw [ends]
          exact ⟨rfl, (List.append_nil file).symm⟩
        | succ more =>
          have filled : read.bytes ≠ [] := List.length_pos_iff.mp (by omega)
          rw [Side.deliver, if_neg filled] at ends
          have shorter := congrArg List.length parts
          rw [List.length_append] at shorter
          obtain ⟨sum, fewer, size⟩ := @count_spec side (side.shrink c) read.bytes.length
            (by rw [total, left]; exact small) (by omega)
          -- The loop starts again with what is left.
          obtain ⟨later, last, onward, result⟩ := @ih (side.count (side.shrink c) read.bytes.length)
            (file ++ read.bytes) read.stream read.fragments (by omega) (by omega) (by omega)
            (by omega) (by omega)
          rw [ends] at run
          refine ⟨trace ++ later, last, run.append onward, ?_⟩
          rw [fewer, left, same] at result
          dsimp only
          cases rest : receiveBlocks fuel read.fragments read.stream
              (side.left c - (more + 1)) with
          | none =>
            rw [rest] at result
            exact result
          | some triple =>
            rw [rest] at result
            obtain ⟨finished, whole⟩ := result
            exact ⟨finished, by rw [whole, List.append_assoc]⟩

/-- So is the whole transfer, for a declared size. -/
theorem receiveBlocks_run_start (side : Side) (fileSize : Nat) (fragments : List Fragment)
    (stream : List UInt8) :
    ∃ trace final, Run (ReadStep side) (side.start fileSize) trace final ∧
      match receiveBlocks (stream.length + 1) fragments stream ((fileSize + 5) % sizeRange) with
      | none => final.phase = .overread
      | some (content, _, _) => final.phase = .finished ∧ final.file = content := by
  have bounded : (fileSize + 5) % sizeRange < sizeRange := Nat.mod_lt _ (Nat.two_pow_pos 64)
  rw [Side.start]
  generalize (fileSize + 5) % sizeRange = limit at bounded ⊢
  have run := @receiveBlocks_run side ⟨0, limit, blockSize⟩ [] stream fragments (stream.length + 1)
    (Nat.lt_succ_self _) (by rw [left_start, Nat.zero_add]; exact bounded) (Nat.le_refl _)
    (Nat.min_le_left _ _) (show 0 < 512 by decide)
  rwa [left_start] at run

end Executions

end SystemProgramming.FileServer
