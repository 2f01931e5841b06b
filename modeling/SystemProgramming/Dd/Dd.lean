import Mathlib.Algebra.Order.Ring.Nat
import Mathlib.Data.List.TakeDrop
import SystemProgramming.Foundations.While

/-! Copying blocks of one file to another, and what is counted of them. -/

namespace SystemProgramming.Dd

open Foundations

section Files

/-- An open `FILE` of a regular file, and the place in it where the next byte is read or written. -/
structure File where
  bytes : List UInt8
  position : Nat
  deriving DecidableEq, Repr

/-- `fseek` from the start of the file; an offset that is no `long` is refused. -/
def fseek (file : File) (offset : Nat) : File :=
  if offset < 2 ^ 63 then { file with position := offset } else file

/-- `fread`; fewer bytes are read only where the file ends. -/
def fread (file : File) (count : Nat) : List UInt8 × File :=
  let bytes := (file.bytes.drop file.position).take count
  (bytes, { file with position := file.position + bytes.length })

/-- `fwrite` of all the bytes; what lies between the end of the file and them becomes zeros. -/
def fwrite (file : File) (bytes : List UInt8) : File :=
  if bytes = [] then file
  else
    { bytes := file.bytes.takeD file.position 0 ++ bytes ++
        file.bytes.drop (file.position + bytes.length)
      position := file.position + bytes.length }

/-- Bytes behind so many zeros; nothing, if there are no bytes. -/
def placed (zeros : Nat) (bytes : List UInt8) : List UInt8 :=
  if bytes = [] then [] else List.replicate zeros 0 ++ bytes

variable {zeros : Nat} {bytes more : List UInt8}

/-- What is written behind the bytes, or behind the place where they would be, is added to them. -/
theorem fwrite_placed (some : more ≠ []) :
    fwrite ⟨placed zeros bytes, zeros + bytes.length⟩ more =
      ⟨placed zeros (bytes ++ more), zeros + (bytes ++ more).length⟩ := by
  have joined : bytes ++ more ≠ [] := by simp [some]
  rw [fwrite, if_neg some, placed, placed, if_neg joined]
  by_cases empty : bytes = []
  · -- The zeros come with the first bytes.
    subst empty
    simp
  · rw [if_neg empty]
    have whole : (List.replicate zeros 0 ++ bytes).length = zeros + bytes.length := by simp
    simp only
    rw [← whole, List.takeD_eq_take _ (Nat.le_refl _), List.take_length,
      List.drop_eq_nil_of_le (Nat.le_add_right _ _), List.append_nil, List.append_assoc, whole,
      List.length_append, Nat.add_assoc]

end Files

/-- The counters of the program. -/
structure Status where
  fullIn : Nat
  partialIn : Nat
  fullOut : Nat
  partialBlocksOut : Nat
  totalCopied : Nat
  deriving DecidableEq, Repr

/-- What the options set, a `size_t` each. -/
structure Options where
  blockSize : Nat := 512
  blockCopied : Nat := 0
  skipInputBlocks : Nat := 0
  skipOutputBlocks : Nat := 0
  deriving DecidableEq, Repr

/-- Where the blocks come from: the standard input, or a file with a name, if that can be opened. -/
inductive Input where
  | stdin (file : File)
  | named (content : Option (List UInt8))
  deriving DecidableEq, Repr

/-- Where they go: the standard output, or a file with a name, which becomes empty. -/
inductive Output where
  | stdout (file : File)
  | named (opens : Bool)
  deriving DecidableEq, Repr

/-- `file_in` after the places were sought; nothing, if it cannot be opened. -/
def Input.fileIn (options : Options) : Input → Option File
  | stdin file => some file
  | named content => content.map fun bytes =>
    fseek ⟨bytes, 0⟩ (options.skipInputBlocks * options.blockSize % 2 ^ 64)

/-- `file_out`, in the same way. -/
def Output.fileOut (options : Options) : Output → Option File
  | stdout file => some file
  | named opens =>
    if opens then some (fseek ⟨[], 0⟩ (options.skipOutputBlocks * options.blockSize % 2 ^ 64))
    else none

/-- The files and the counters, while blocks are copied. -/
structure Copying where
  fileIn : File
  fileOut : File
  status : Status
  deriving DecidableEq, Repr

/-- What is counted for a block: that it was read, and that it was written. -/
def Status.block (status : Status) (blockSize bytesRead bytesWritten : Nat) : Status where
  fullIn := if bytesRead = blockSize then status.fullIn + 1 else status.fullIn
  partialIn := if bytesRead = blockSize then status.partialIn else status.partialIn + 1
  fullOut := if bytesWritten = blockSize then status.fullOut + 1 else status.fullOut
  partialBlocksOut :=
    if bytesWritten = blockSize then status.partialBlocksOut else status.partialBlocksOut + 1
  totalCopied := status.totalCopied + bytesWritten

/-- One turn of the loop. -/
def copyBlock (options : Options) (st : Copying) : Option (Turn Copying Copying) :=
  let (buffer, fileIn) := fread st.fileIn options.blockSize
  if 0 < buffer.length then
    let next : Copying :=
      { fileIn
        fileOut := fwrite st.fileOut buffer
        status := st.status.block options.blockSize buffer.length buffer.length }
    -- Only full blocks count for the number of blocks that are to be copied.
    if options.blockCopied ≠ 0 ∧ options.blockCopied ≤ next.status.fullIn then some (.ends next)
    else some (.goesOn next)
  else some (.ends { st with fileIn })

/-- How the program ends. -/
inductive Outcome where
  | invalidInput
  | invalidOutput
  | finished (st : Copying)
  deriving DecidableEq, Repr

/--
`main`, behind the options. The memory for a block is there, and no counter reaches 2 ^ 64, as no file
is that long.
-/
def main (turns : Nat) (options : Options) (input : Input) (output : Output) : Option Outcome :=
  match input.fileIn options with
  | none => some .invalidInput
  | some fileIn =>
    match output.fileOut options with
    | none => some .invalidOutput
    | some fileOut =>
      (loop (copyBlock options) turns ⟨fileIn, fileOut, ⟨0, 0, 0, 0, 0⟩⟩).map .finished

section Slices

variable {options : Options} {input : List UInt8} {st : Copying}
  {blockSize count length turns : Nat}

/-- The input from the first block on that is not skipped. -/
def behind (options : Options) (input : List UInt8) : List UInt8 :=
  input.drop (options.skipInputBlocks * options.blockSize)

/-- What is to be copied of it: all, or as many bytes as so many blocks have. -/
def slice (options : Options) (input : List UInt8) : List UInt8 :=
  if options.blockCopied = 0 then behind options input
  else (behind options input).take (options.blockCopied * options.blockSize)

/-- The counters when so many bytes are copied. -/
def counted (blockSize count : Nat) : Status where
  fullIn := count / blockSize
  partialIn := if blockSize ∣ count then 0 else 1
  fullOut := count / blockSize
  partialBlocksOut := if blockSize ∣ count then 0 else 1
  totalCopied := count

/-- Behind full blocks, one more block is full, or it is the one that is not. -/
theorem counted_block (whole : blockSize ∣ count) (nonempty : 0 < length)
    (fits : length ≤ blockSize) :
    (counted blockSize count).block blockSize length length = counted blockSize (count + length) := by
  obtain ⟨blocks, rfl⟩ := whole
  have positive : 0 < blockSize := by omega
  by_cases full : length = blockSize
  · subst full
    simp [counted, Status.block, positive]
  · have rest : ¬ blockSize ∣ blockSize * blocks + length := by
      rw [← Nat.dvd_add_iff_right (Nat.dvd_mul_right _ _)]
      exact fun divides => full (Nat.le_antisymm fits (Nat.le_of_dvd nonempty divides))
    have quotient : (blockSize * blocks + length) / blockSize = blocks := by
      rw [Nat.mul_add_div positive, Nat.div_eq_of_lt (by omega), Nat.add_zero]
    simp [counted, Status.block, full, rest, quotient, positive]

/-- So many bytes are copied, of the full blocks or of all that there are. -/
structure Copied (options : Options) (input : List UInt8) (st : Copying) (count : Nat) : Prop where
  fileIn : st.fileIn = ⟨input, options.skipInputBlocks * options.blockSize + count⟩
  fileOut : st.fileOut =
    ⟨placed (options.skipOutputBlocks * options.blockSize) ((behind options input).take count),
      options.skipOutputBlocks * options.blockSize + count⟩
  status : st.status = counted options.blockSize count
  exists_bytes : count ≤ (behind options input).length
  whole : options.blockSize ∣ count ∨ count = (behind options input).length

/-- The bytes in the output, and the counters, are those of the slice. -/
def Finished (options : Options) (input : List UInt8) (final : Copying) : Prop :=
  final.fileOut.bytes =
      placed (options.skipOutputBlocks * options.blockSize) (slice options input) ∧
    final.status = counted options.blockSize (slice options input).length

/-- When the bytes of the slice are copied, the loop may end. -/
theorem Copied.finished (copied : Copied options input st count)
    (all : slice options input = (behind options input).take count) : Finished options input st := by
  obtain ⟨_, fileOut, status, exists_bytes, _⟩ := copied
  have same : (slice options input).length = count := by
    rw [all, List.length_take_of_le exists_bytes]
  rw [Finished, fileOut, status, same, all]
  exact ⟨rfl, rfl⟩

/-- A block that is there is added to what was copied. -/
theorem Copied.block {block : List UInt8} (copied : Copied options input st count)
    (read : ((behind options input).drop count).take options.blockSize = block)
    (nonempty : block ≠ []) :
    Copied options input
      { fileIn :=
          ⟨input, options.skipInputBlocks * options.blockSize + count + block.length⟩
        fileOut := fwrite st.fileOut block
        status := st.status.block options.blockSize block.length block.length }
      (count + block.length) := by
  obtain ⟨_, fileOut, status, exists_bytes, whole⟩ := copied
  have size := congrArg List.length read
  rw [List.length_take, List.length_drop] at size
  have positive := List.length_pos_iff.mpr nonempty
  -- The bytes before it are full blocks, as there are still some behind them.
  have blocks : options.blockSize ∣ count := whole.resolve_right (by omega)
  have before : ((behind options input).take count).length = count :=
    List.length_take_of_le exists_bytes
  have joined : (behind options input).take count ++ block =
      (behind options input).take (count + block.length) := by
    rw [List.take_add, ← read, List.length_take, ← List.take_eq_take_min]
  refine ⟨by rw [Nat.add_assoc], ?_, ?_, by omega, ?_⟩
  · have written := @fwrite_placed (options.skipOutputBlocks * options.blockSize)
      ((behind options input).take count) block nonempty
    rw [joined, before] at written
    rw [fileOut]
    refine written.trans ?_
    rw [List.length_take_of_le (by omega)]
  · rw [status, counted_block blocks positive (by omega)]
  · rcases Nat.lt_or_ge block.length options.blockSize with last | full
    · exact .inr (by omega)
    · left
      have same : block.length = options.blockSize := by omega
      rw [same]
      exact Nat.dvd_add blocks (Nat.dvd_refl _)

/-- The next multiple of a number is not beyond a greater one. -/
theorem next_multiple_le {factor : Nat} (multiple : blockSize ∣ count)
    (less : count < factor * blockSize) : count + blockSize ≤ factor * blockSize := by
  obtain ⟨blocks, rfl⟩ := multiple
  rw [Nat.mul_comm factor] at less ⊢
  rw [← Nat.mul_succ]
  exact Nat.mul_le_mul_left _ (Nat.lt_of_mul_lt_mul_left less)

/-- The bytes that are copied are not all that are asked for. -/
def Missing (options : Options) (count : Nat) : Prop :=
  options.blockCopied = 0 ∨ count < options.blockCopied * options.blockSize

/-- One turn copies a block of the slice, or then the slice is copied. -/
theorem Copied.turn (copied : Copied options input st count) (missing : Missing options count)
    (positive : 1 ≤ options.blockSize) :
    (∃ final, copyBlock options st = some (.ends final) ∧ Finished options input final) ∨
      ∃ next more, copyBlock options st = some (.goesOn next) ∧ 0 < more ∧
        Copied options input next (count + more) ∧ Missing options (count + more) := by
  generalize read : ((behind options input).drop count).take options.blockSize = block
  have taken : fread st.fileIn options.blockSize = (block,
      ⟨input, options.skipInputBlocks * options.blockSize + count + block.length⟩) := by
    rw [behind, List.drop_drop] at read
    rw [copied.fileIn, fread, read]
  have size := congrArg List.length read
  rw [List.length_take, List.length_drop] at size
  have exists_bytes := copied.exists_bytes
  by_cases empty : block = []
  · -- The input ends here, and so does the slice.
    subst empty
    rw [List.length_nil] at size
    have all : count = (behind options input).length := by omega
    have same : slice options input = (behind options input).take count := by
      rw [slice, all, List.take_length]
      split
      · rfl
      · -- There are fewer bytes than are asked for.
        rename_i limited
        have fewer := missing.resolve_left limited
        rw [List.take_of_length_le (by omega)]
    left
    refine ⟨{ st with fileIn := _ }, by simp only [copyBlock, taken]; rfl, ?_⟩
    exact copied.finished same
  · have nonempty := List.length_pos_iff.mpr empty
    have added := copied.block read empty
    have fullIn := congrArg Status.fullIn added.status
    by_cases enough : options.blockCopied ≠ 0 ∧
        options.blockCopied ≤ (count + block.length) / options.blockSize
    · -- The number of full blocks is reached, and no byte of another one is copied.
      have blocks : options.blockSize ∣ count := copied.whole.resolve_right (by omega)
      have reached := (Nat.le_div_iff_mul_le positive).mp enough.2
      have most := next_multiple_le blocks (missing.resolve_left enough.1)
      left
      refine ⟨_, ?_, added.finished ?_⟩
      · simp only [copyBlock, taken]
        rw [if_pos nonempty, if_pos]
        rw [fullIn]
        exact enough
      · rw [slice, if_neg enough.1, show options.blockCopied * options.blockSize =
          count + block.length by omega]
    · right
      refine ⟨_, block.length, ?_, nonempty, added, ?_⟩
      · simp only [copyBlock, taken]
        rw [if_pos nonempty, if_neg]
        rw [fullIn]
        exact enough
      · rcases not_and_or.mp enough with always | fewer
        · exact .inl (Classical.not_not.mp always)
        · exact .inr ((Nat.div_lt_iff_lt_mul positive).mp (Nat.lt_of_not_le fewer))

/-- The input is open, from the first byte on that is not skipped. -/
theorem fileIn_named (fits : options.skipInputBlocks * options.blockSize < 2 ^ 63) :
    Input.fileIn options (.named (some input)) =
      some ⟨input, options.skipInputBlocks * options.blockSize⟩ := by
  rw [Input.fileIn, Option.map_some, fseek, Nat.mod_eq_of_lt (by omega), if_pos fits]

/-- The output is open and empty, and the bytes go behind those that are skipped. -/
theorem fileOut_named (fits : options.skipOutputBlocks * options.blockSize < 2 ^ 63) :
    Output.fileOut options (.named true) =
      some ⟨[], options.skipOutputBlocks * options.blockSize⟩ := by
  rw [Output.fileOut, if_pos rfl, fseek, Nat.mod_eq_of_lt (by omega), if_pos fits]

/-- How many bytes of the input are not read. -/
def unread (options : Options) (input : List UInt8) (st : Copying) : Nat :=
  options.skipInputBlocks * options.blockSize + (behind options input).length - st.fileIn.position

/-- A block that was read is one that is not left. -/
theorem Copied.unread_lt {next : Copying} {more : Nat} (copied : Copied options input st count)
    (later : Copied options input next (count + more)) (some : 0 < more) :
    unread options input next < unread options input st := by
  have bound := later.exists_bytes
  rw [unread, unread, copied.fileIn, later.fileIn]
  simp only
  omega

/-- From the files as they were opened, the loop copies the slice. -/
theorem loop_copies (positive : 1 ≤ options.blockSize) (enough : input.length < turns) :
    ∃ final, loop (copyBlock options) turns
        ⟨⟨input, options.skipInputBlocks * options.blockSize⟩,
          ⟨[], options.skipOutputBlocks * options.blockSize⟩, ⟨0, 0, 0, 0, 0⟩⟩ = some final ∧
      Finished options input final := by
  have start : Copied options input
      ⟨⟨input, options.skipInputBlocks * options.blockSize⟩,
        ⟨[], options.skipOutputBlocks * options.blockSize⟩, ⟨0, 0, 0, 0, 0⟩⟩ 0 :=
    ⟨rfl, by simp [placed], by simp [counted], Nat.zero_le _, .inl (Nat.dvd_zero _)⟩
  have first : Missing options 0 := by
    rcases Nat.eq_zero_or_pos options.blockCopied with zero | some
    · exact .inl zero
    · exact .inr (Nat.mul_pos some positive)
  have fewer : (behind options input).length ≤ input.length := by
    rw [behind, List.length_drop]
    exact Nat.sub_le _ _
  -- Every turn that goes on has read a block, so that less is left to be read.
  refine loop_rule (fun st => ∃ count, Copied options input st count ∧ Missing options count)
    (Finished options input) (unread options input) ⟨0, start, first⟩ ?_ ?_
  · rw [unread]
    simp only
    omega
  · rintro st ⟨count, copied, missing⟩
    rcases copied.turn missing positive with ended | ⟨next, more, goes, some, later, still⟩
    · exact .inl ended
    · exact .inr ⟨next, goes, ⟨_, later, still⟩, copied.unread_lt later some⟩

/--
The program copies the slice: the bytes of the output are the zeros of the blocks that are skipped,
and then the slice, or nothing if that is empty; and its counters are those of the slice.
-/
theorem dd_copies_slice (options : Options) (input : List UInt8) (turns : Nat)
    (positive : 1 ≤ options.blockSize)
    (skipInput : options.skipInputBlocks * options.blockSize < 2 ^ 63)
    (skipOutput : options.skipOutputBlocks * options.blockSize < 2 ^ 63)
    (enough : input.length < turns) :
    ∃ final, main turns options (.named (some input)) (.named true) = some (.finished final) ∧
      final.fileOut.bytes = (if slice options input = [] then []
        else List.replicate (options.skipOutputBlocks * options.blockSize) 0 ++ slice options input) ∧
      final.status.fullIn = (slice options input).length / options.blockSize ∧
      final.status.fullOut = (slice options input).length / options.blockSize ∧
      final.status.partialIn = (if options.blockSize ∣ (slice options input).length then 0 else 1) ∧
      final.status.partialBlocksOut =
        (if options.blockSize ∣ (slice options input).length then 0 else 1) ∧
      final.status.totalCopied = (slice options input).length := by
  obtain ⟨final, ends, bytes, status⟩ := @loop_copies options input turns positive enough
  refine ⟨final, ?_, bytes, ?_⟩
  · rw [main, fileIn_named skipInput]
    simp only [fileOut_named skipOutput, ends, Option.map_some]
  · -- The counters are those of as many bytes as the slice has.
    rw [status]
    exact ⟨rfl, rfl, rfl, rfl, rfl⟩

/-- Two bytes are skipped in both files, and the last block of the slice is not full. -/
theorem dd_copies_slice_sample : ∃ final,
    main 6 ⟨2, 0, 1, 1⟩ (.named (some [1, 2, 3, 4, 5])) (.named true) = some (.finished final) ∧
      final.fileOut.bytes = [0, 0, 3, 4, 5] ∧ final.status.fullIn = 1 ∧ final.status.partialIn = 1 ∧
      final.status.totalCopied = 3 := by
  obtain ⟨final, ends, bytes, fullIn, _, partialIn, _, total⟩ :=
    dd_copies_slice ⟨2, 0, 1, 1⟩ [1, 2, 3, 4, 5] 6 (by decide) (by decide) (by decide) (by decide)
  exact ⟨final, ends, bytes, fullIn, partialIn, total⟩

end Slices

end SystemProgramming.Dd
