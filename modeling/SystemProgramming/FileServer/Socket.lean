import SystemProgramming.Foundations.Stream

/-! Whole transfers over a socket, from calls that may move less than they are asked for. -/

namespace SystemProgramming.FileServer

open Foundations

/-- The number of values of a `size_t`. -/
abbrev sizeRange : Nat := 2 ^ 64

/-- `sizeof(size_t)`. -/
abbrev sizeBytes : Nat := 8

/-- The block that the transfer loops use. -/
abbrev blockSize : Nat := 512

section Loops

/-- What `read_all_from_socket` leaves; no result is returned for -1. -/
structure Received where
  returned : Option Nat
  bytes : List UInt8
  stream : List UInt8
  fragments : List Fragment

/--
The loop of `read_all_from_socket`: the calls do what the fragments say, and after these each call
moves all it can. The stream holds what the other side sends until it closes the connection.
-/
def readAllFromSocket : List Fragment → List UInt8 → Nat → Received
  | [], stream, remainByte =>
    ⟨some (stream.take remainByte).length, stream.take remainByte, stream.drop remainByte, []⟩
  | fragment :: fragments, stream, remainByte =>
    -- The loop ends when nothing remains, before another call is made.
    if remainByte = 0 then ⟨some 0, [], stream, fragment :: fragments⟩
    else
      match fragment with
      -- `EINTR` only repeats the call.
      | .interrupted => readAllFromSocket fragments stream remainByte
      | .failed => ⟨none, [], stream, fragments⟩
      | .moves more =>
        let got := stream.take (min (more + 1) remainByte)
        -- A call that returns 0 has found the end of the stream.
        if got = [] then ⟨some 0, [], stream, fragments⟩
        else
          let next := readAllFromSocket fragments (stream.drop got.length)
            (remainByte - got.length)
          ⟨next.returned.map (got.length + ·), got ++ next.bytes, next.stream, next.fragments⟩

/-- What `write_all_to_socket` leaves; no result is returned for -1. -/
structure Sent where
  returned : Option Nat
  bytes : List UInt8
  fragments : List Fragment

/-- The loop of `write_all_to_socket`. -/
def writeAllToSocket : List Fragment → List UInt8 → Sent
  | [], buffer => ⟨some buffer.length, buffer, []⟩
  | fragment :: fragments, buffer =>
    -- The loop ends when everything was written, before another call is made.
    if buffer = [] then ⟨some 0, [], fragment :: fragments⟩
    else
      match fragment with
      -- `EINTR` only repeats the call.
      | .interrupted => writeAllToSocket fragments buffer
      | .failed => ⟨none, [], fragments⟩
      | .moves more =>
        let put := buffer.take (more + 1)
        let next := writeAllToSocket fragments (buffer.drop (more + 1))
        ⟨next.returned.map (put.length + ·), put ++ next.bytes, next.fragments⟩

/-- Several writes one after the other, whose results are not looked at. -/
def writeEach : List Fragment → List (List UInt8) → List UInt8
  | _, [] => []
  | fragments, buffer :: buffers =>
    let sent := writeAllToSocket fragments buffer
    sent.bytes ++ writeEach sent.fragments buffers

/--
The loop that stores what it reads, as the server does for a `PUT` and the client for a `GET`:
at most `maxSize` bytes, in blocks. After a failed read it would store bytes it does not have.
Each round but the last takes a byte from the stream.
-/
def receiveBlocks : Nat → List Fragment → List UInt8 → Nat →
    Option (List UInt8 × List UInt8 × List Fragment)
  | 0, _, _, _ => none
  | fuel + 1, fragments, stream, maxSize =>
    if maxSize = 0 then some ([], stream, fragments)
    else
      -- The last block is cut at the limit, as the source shrinks `blocksize`.
      let read := readAllFromSocket fragments stream (min blockSize maxSize)
      match read.returned with
      -- The source would treat the -1 as a huge `size_t`.
      | none => none
      -- The other side has closed the connection.
      | some 0 => some ([], read.stream, read.fragments)
      | some (bytesRead + 1) =>
        match receiveBlocks fuel read.fragments read.stream (maxSize - (bytesRead + 1)) with
        | none => none
        | some (bytes, stream, fragments) => some (read.bytes ++ bytes, stream, fragments)

/--
`localfile_write`, which server and client share: the file is read and sent in blocks, up to
`fileSize` bytes. Each round but the last takes a byte from the file.
-/
def localfileWrite : Nat → List Fragment → List UInt8 → Nat → Option Sent
  | 0, _, _, _ => none
  | fuel + 1, fragments, file, fileSize =>
    if fileSize = 0 then some ⟨some 0, [], fragments⟩
    else
      -- `fread` gives a whole block except at the end of the file.
      let buf := file.take (min fileSize blockSize)
      -- The file is shorter than the size that is to be sent.
      if buf = [] then some ⟨some 0, [], fragments⟩
      else
        let sent := writeAllToSocket fragments buf
        match sent.returned with
        | none => some sent
        | some _ =>
          match localfileWrite fuel sent.fragments (file.drop buf.length)
              (fileSize - buf.length) with
          | none => none
          | some next => some ⟨next.returned, sent.bytes ++ next.bytes, next.fragments⟩

end Loops

variable {fragments : List Fragment} {stream buffer file : List UInt8} {count fuel : Nat}

/-- Without errors, all that is asked for is read, unless the other side closes first. -/
theorem readAllFromSocket_eq (unbroken : Unbroken fragments) :
    ∃ later, Unbroken later ∧ readAllFromSocket fragments stream count =
      ⟨some (stream.take count).length, stream.take count, stream.drop count, later⟩ := by
  -- Each call is interrupted, finds the end, or moves a piece and leaves the rest to the others.
  induction fragments generalizing stream count with
  | nil => exact ⟨[], by decide, rfl⟩
  | cons fragment fragments ih =>
    unfold readAllFromSocket
    split
    next done =>
      rw [done]
      exact ⟨_, unbroken, rfl⟩
    next more =>
      cases fragment with
      | interrupted => exact ih unbroken.tail
      | failed => exact absurd (List.mem_cons_self) unbroken
      | moves extra =>
        -- What this call leaves is read by the later ones.
        obtain ⟨later, fine, rest⟩ := @ih
          (stream.drop (stream.take (min (extra + 1) count)).length)
          (count - (stream.take (min (extra + 1) count)).length) unbroken.tail
        simp only [rest]
        split
        next empty =>
          -- Nothing was moved although something was asked for, so the stream has ended.
          have ended : stream = [] := by
            rw [List.take_eq_nil_iff] at empty
            rcases empty with none | ended
            · omega
            · exact ended
          subst ended
          refine ⟨fragments, unbroken.tail, ?_⟩
          simp
        next moved =>
          -- The piece of this call and the pieces of the later ones make up the whole.
          obtain ⟨front, back⟩ := @pieces_of_take stream count _ (Nat.min_le_right (extra + 1) count)
          refine ⟨later, fine, ?_⟩
          rw [Option.map_some, ← List.length_append, front, back]

/-- Without errors, all bytes are written. -/
theorem writeAllToSocket_eq (unbroken : Unbroken fragments) :
    ∃ later, Unbroken later ∧
      writeAllToSocket fragments buffer = ⟨some buffer.length, buffer, later⟩ := by
  -- Each call is interrupted, or moves a piece and leaves the rest to the others.
  induction fragments generalizing buffer with
  | nil => exact ⟨[], by decide, rfl⟩
  | cons fragment fragments ih =>
    unfold writeAllToSocket
    split
    next done =>
      rw [done]
      exact ⟨_, unbroken, rfl⟩
    next more =>
      cases fragment with
      | interrupted => exact ih unbroken.tail
      | failed => exact absurd (List.mem_cons_self) unbroken
      | moves extra =>
        -- What this call leaves is written by the later ones.
        obtain ⟨later, fine, rest⟩ := @ih (buffer.drop (extra + 1)) unbroken.tail
        refine ⟨later, fine, ?_⟩
        simp only [rest, Option.map_some, List.take_append_drop, ← List.length_append]

/-- Without errors, the receiving loop ends with all that came, up to its limit. -/
theorem receiveBlocks_eq (unbroken : Unbroken fragments) (enough : stream.length < fuel) :
    ∃ later, Unbroken later ∧ receiveBlocks fuel fragments stream count =
      some (stream.take count, stream.drop count, later) := by
  -- Each round reads a block, and a round that reads nothing has come to the end.
  induction fuel generalizing fragments stream count with
  | zero => omega
  | succ fuel ih =>
    rw [receiveBlocks]
    split
    next done =>
      rw [done]
      exact ⟨_, unbroken, rfl⟩
    next more =>
      obtain ⟨later, fine, read⟩ :=
        @readAllFromSocket_eq fragments stream (min blockSize count) unbroken
      simp only [read]
      obtain ⟨front, back⟩ := @pieces_of_take stream count _ (Nat.min_le_right blockSize count)
      rw [drop_taken] at front back
      rcases Nat.eq_zero_or_pos (stream.take (min blockSize count)).length with none | positive
      · -- A block of at least one byte was asked for, so the stream has ended.
        have ended : stream = [] := by
          rw [List.length_take] at none
          apply List.length_eq_zero_iff.mp
          simp only [blockSize] at none
          omega
        subst ended
        refine ⟨later, fine, ?_⟩
        simp
      · -- A block that is not empty makes the stream shorter, so the fuel is enough for the others.
        obtain ⟨rest, moved⟩ := Nat.exists_eq_add_of_le' positive
        have shorter : (stream.drop (min blockSize count)).length < fuel := by
          rw [List.length_take] at moved
          rw [List.length_drop]
          omega
        obtain ⟨last, calm, next⟩ :=
          @ih later (stream.drop (min blockSize count)) (count - (rest + 1)) fine shorter
        refine ⟨last, calm, ?_⟩
        rw [moved] at front back ⊢
        simp only [next, front, back]

/-- Without errors, a file is sent up to the size that is given. -/
theorem localfileWrite_eq (unbroken : Unbroken fragments) (enough : file.length < fuel) :
    ∃ later, Unbroken later ∧ localfileWrite fuel fragments file count =
      some ⟨some 0, file.take count, later⟩ := by
  -- Each round sends a block, and a round that reads nothing has come to the end of the file.
  induction fuel generalizing fragments file count with
  | zero => omega
  | succ fuel ih =>
    rw [localfileWrite]
    split
    next done =>
      rw [done]
      exact ⟨_, unbroken, rfl⟩
    next more =>
      dsimp only
      split
      next empty =>
        -- A block was asked for, so an empty one means that the file has ended.
        have ended : file = [] := by
          rw [List.take_eq_nil_iff] at empty
          simp only [blockSize] at empty
          rcases empty with none | ended
          · omega
          · exact ended
        subst ended
        refine ⟨fragments, unbroken, ?_⟩
        simp
      next some =>
        obtain ⟨later, fine, sent⟩ :=
          @writeAllToSocket_eq fragments (file.take (min count blockSize)) unbroken
        simp only [sent]
        -- A block that is not empty makes the file shorter, so the fuel is enough for the others.
        have shorter : (file.drop (file.take (min count blockSize)).length).length < fuel := by
          have positive := List.length_pos_iff.mpr some
          rw [List.length_take] at positive
          rw [List.length_drop, List.length_take]
          omega
        obtain ⟨last, calm, next⟩ := @ih later (file.drop (file.take (min count blockSize)).length)
          (count - (file.take (min count blockSize)).length) fine shorter
        obtain ⟨front, -⟩ := @pieces_of_take file count _ (Nat.min_le_left count blockSize)
        refine ⟨last, calm, ?_⟩
        simp only [next, front]

end SystemProgramming.FileServer
