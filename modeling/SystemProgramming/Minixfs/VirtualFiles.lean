import SystemProgramming.Minixfs.FileSystem

/-! Reading the virtual file that tells how many blocks are free. -/

namespace SystemProgramming.Minixfs

/-- The text of the virtual file, which depends on the data map only. -/
def infoText (layout : Layout) (fs : FileSystem) : List UInt8 :=
  blockInfoString layout ((List.range fs.dblockCount).countP fun block => fs.dataMap block ≠ 0)

/-- One call of `minixfs_virtual_read` for that file. -/
def readInfo (layout : Layout) (fs : FileSystem) (count off : Nat) : ReadResult :=
  minixfsVirtualRead layout fs "info".toUTF8.toList count off

/-- A call copies the bytes of its range, returns their number, and moves the offset by it. -/
structure CopiesRange (layout : Layout) (fs : FileSystem) (count off : Nat) : Prop where
  copied : (readInfo layout fs count off).buf = ((infoText layout fs).take (off + count)).drop off
  returned : (readInfo layout fs count off).returned = (readInfo layout fs count off).buf.length
  moved : (readInfo layout fs count off).off = off + (readInfo layout fs count off).buf.length

/--
Reading in chunks of the given sizes until a call returns zero: what the calls returned, one after
the other. Nothing comes of it if a call fails or there are too few calls.
-/
def readChunks (layout : Layout) (fs : FileSystem) (chunks : Nat → Nat) :
    Nat → Nat → Nat → Option (List UInt8)
  | 0, _, _ => none
  | calls + 1, chunk, off =>
    let result := readInfo layout fs (chunks chunk) off
    if result.returned = 0 then some []
    else if result.returned < 0 then none
    else (readChunks layout fs chunks calls (chunk + 1) result.off).map
      -- A caller takes as many bytes as the call returned.
      (result.buf.take result.returned.toNat ++ ·)

/-- Reading in chunks from the start comes to an end, and yields the whole text once. -/
def ReadsWhole (layout : Layout) (fs : FileSystem) (chunks : Nat → Nat) : Prop :=
  ∃ calls, readChunks layout fs chunks calls 0 0 = some (infoText layout fs)

variable {layout : Layout} {fs : FileSystem} {count off : Nat} {chunks : Nat → Nat}

/-- An array of bytes, as a list, is as long as the array. -/
theorem length_toList_loop (bytes : ByteArray) (position : Nat) (before : List UInt8) :
    (ByteArray.toList.loop bytes position before).length =
      before.length + (bytes.size - position) := by
  -- The loop adds one byte for each position up to the end.
  fun_induction ByteArray.toList.loop bytes position before with
  | case1 position before below ih =>
    rw [ih, List.length_cons]
    omega
  | case2 position before behind =>
    rw [List.length_reverse]
    omega

/-- The text is not empty. -/
theorem infoText_ne_nil : infoText layout fs ≠ [] := by
  -- It ends with a line break, whatever the numbers are.
  intro empty
  have none := congrArg List.length empty
  rw [infoText, blockInfoString, ByteArray.toList, length_toList_loop] at none
  simp only [String.toUTF8_eq_toByteArray, String.toByteArray_append, ByteArray.size_append,
    List.length_nil] at none
  have last : "\n".toByteArray.size = 1 := rfl
  omega

/-- A range with no bytes of the text: the call returns zero and copies nothing. -/
theorem readInfo_behind (behind : min ((off + count) % sizeRange) (infoText layout fs).length ≤ off) :
    readInfo layout fs count off = ⟨0, fs, off, []⟩ := by
  -- The comparison with the offset ends the call.
  simp only [readInfo, minixfsVirtualRead, if_pos]
  exact if_pos behind

/-- Any other call returns the offset before it with the sign changed. -/
theorem readInfo_inside
    (inside : off < min ((off + count) % sizeRange) (infoText layout fs).length) :
    (readInfo layout fs count off).returned = -off ∧
      (readInfo layout fs count off).buf.length =
        min ((off + count) % sizeRange) (infoText layout fs).length - off := by
  simp only [readInfo, minixfsVirtualRead, if_pos]
  rw [infoText] at inside ⊢
  rw [if_neg (Nat.not_le.mpr inside)]
  -- The end of the range is subtracted from itself.
  constructor
  · push_cast
    omega
  · rw [List.length_take, List.length_drop]
    omega

/-- A call at the start returns zero. -/
theorem readInfo_start : (readInfo layout fs count 0).returned = 0 := by
  -- Either there is nothing to read, or the offset with the sign changed is returned.
  by_cases behind : min ((0 + count) % sizeRange) (infoText layout fs).length ≤ 0
  · rw [readInfo_behind behind]
  · rw [(readInfo_inside (Nat.not_le.mp behind)).1]
    rfl

/-- Reading in chunks never yields the text, since the first call returns zero. -/
theorem not_readsWhole : ¬ ReadsWhole layout fs chunks := by
  rintro ⟨calls, whole⟩
  cases calls with
  | zero => cases whole
  | succ calls =>
    -- The reader stops at once, with nothing.
    rw [readChunks, if_pos readInfo_start] at whole
    exact infoText_ne_nil (Option.some.inj whole).symm

/--
A call copies its range, returns the number of bytes, and moves the offset by it, exactly if there
is nothing to copy; and reading in chunks of whatever sizes never yields the text.
-/
theorem copiesRange_iff (starts : off < 2 ^ 63) (sized : count < sizeRange) :
    (CopiesRange layout fs count off ↔ count = 0 ∨ (infoText layout fs).length ≤ off) ∧
      ∀ chunks : Nat → Nat, (∀ chunk, 0 < chunks chunk) → ¬ ReadsWhole layout fs chunks := by
  simp only [sizeRange] at sized
  refine ⟨?_, fun chunks _ => not_readsWhole⟩
  by_cases behind : min ((off + count) % sizeRange) (infoText layout fs).length ≤ off
  · -- Nothing is copied, which is right if the range has no bytes.
    have nothing : CopiesRange layout fs count off ↔
        ((infoText layout fs).take (off + count)).drop off = [] := by
      constructor
      · intro law
        rw [← law.copied, readInfo_behind behind]
      · intro empty
        constructor <;> rw [readInfo_behind behind]
        · exact empty.symm
        · rfl
        · rfl
    rw [nothing, List.drop_eq_nil_iff, List.length_take]
    omega
  · have inside := Nat.not_le.mp behind
    obtain ⟨returned, copied⟩ := readInfo_inside inside
    -- What is returned is not positive, although something is copied.
    refine iff_of_false (fun law => ?_) ?_
    · have same := law.returned
      omega
    · simp only [sizeRange] at inside
      omega

/-- A file system of three blocks of which one is used. -/
def thirdUsed : Layout × FileSystem :=
  (⟨16, 1, 3, 4, by decide, by decide⟩,
    ⟨3, fun block => if block = 0 then 1 else 0,
      fun _ => ⟨false, 0, fun _ => unassignedNode, unassignedNode, 0, 0⟩, fun _ => 0⟩)

/-- A call for no bytes does what it should, and reading byte by byte yields nothing. -/
theorem copiesRange_iff_third :
    CopiesRange thirdUsed.1 thirdUsed.2 0 5 ∧ ¬ ReadsWhole thirdUsed.1 thirdUsed.2 fun _ => 1 :=
  have law := @copiesRange_iff thirdUsed.1 thirdUsed.2 0 5 (by decide) (by decide)
  ⟨law.1.mpr (.inl rfl), law.2 _ fun _ => Nat.one_pos⟩

/-- The first call for five bytes copies them and returns zero, so that its caller has none. -/
theorem first_chunk_lost :
    (readInfo thirdUsed.1 thirdUsed.2 5 0).buf = [70, 114, 101, 101, 32] ∧
      (readInfo thirdUsed.1 thirdUsed.2 5 0).returned = 0 ∧
      ¬ CopiesRange thirdUsed.1 thirdUsed.2 5 0 ∧
      ¬ ReadsWhole thirdUsed.1 thirdUsed.2 fun _ => 5 := by
  have copied : (readInfo thirdUsed.1 thirdUsed.2 5 0).buf = [70, 114, 101, 101, 32] := by
    decide +kernel
  have zero : (readInfo thirdUsed.1 thirdUsed.2 5 0).returned = 0 := readInfo_start
  refine ⟨copied, zero, fun law => ?_, not_readsWhole⟩
  have same := law.returned
  rw [zero, copied] at same
  cases same

end SystemProgramming.Minixfs
