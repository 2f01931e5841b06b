import SystemProgramming.Minixfs.FileSystem

/-! The loops over blocks are reads and writes of the bytes of a file. -/

namespace SystemProgramming.Minixfs

open Foundations

variable {layout : Layout} {dblockCount block piece indexDb offsetDb off start fuel count : Nat}
  {inode : Inode} {data data' after : Memory} {buf front back : List UInt8}

/-- No block has the number of a block that a file does not have. -/
@[simp] theorem blockOf_unassigned : blockOf dblockCount unassignedNode = none := by
  simp [blockOf]

/-- The number of a block of the data area. -/
theorem blockOf_of_lt (inside : block < dblockCount) : blockOf dblockCount block = some block := by
  simp [blockOf, inside]

/-- The block of a direct piece. -/
theorem dataBlock_direct (direct : piece < layout.numDirectBlocks) :
    dataBlock layout dblockCount inode data piece = blockOf dblockCount (inode.direct piece) := by
  -- The index is below the number of direct blocks.
  simp only [dataBlock, ge_iff_le, if_neg (Nat.not_le.mpr direct)]

/-- The block of an indirect piece is named by its entry in the indirect block. -/
theorem dataBlock_indirect (indirect : layout.numDirectBlocks ≤ piece) :
    dataBlock layout dblockCount inode data piece =
      if piece - layout.numDirectBlocks < layout.blockSize / numberSize then
        (blockOf dblockCount inode.indirect).bind fun table =>
          blockOf dblockCount (tableEntry layout data table (piece - layout.numDirectBlocks))
      else none := by
  -- Both sides look at the indirect block only for an entry inside it.
  rw [dataBlock, if_pos indirect]
  congr 1
  cases blockOf dblockCount inode.indirect with
  | none => rw [Option.bind_none]
  | some table => rw [Option.bind_some]

/-- Only the pieces that the direct entries and one indirect block can name have a block. -/
theorem piece_lt (held : dataBlock layout dblockCount inode data piece = some block) :
    piece < layout.numDirectBlocks + layout.blockSize / numberSize := by
  -- An indirect piece passes the bound check on its entry.
  by_contra! beyond
  simp only [numberSize] at beyond
  rw [dataBlock_indirect (by omega), if_neg (by simp only [numberSize]; omega)] at held
  cases held

/-- An entry of the indirect block depends only on the bytes of that block. -/
theorem tableEntry_congr {table entry : Nat} (small : entry < layout.blockSize / numberSize)
    (same : ∀ a, a / layout.blockSize = table → data' a = data a) :
    tableEntry layout data' table entry = tableEntry layout data table entry := by
  -- The entry is loaded from bytes of the indirect block only.
  rw [tableEntry, tableEntry, Memory.load_congr]
  intro a lower upper
  apply same
  -- The entries do not reach beyond the end of the block.
  have fits := Nat.div_mul_le_self layout.blockSize numberSize
  obtain ⟨inner, rfl⟩ := Nat.exists_eq_add_of_le (Nat.le_of_add_right_le lower)
  simp only [numberSize] at small lower upper fits
  exact (BlockMap.div_mod_of_offset (by omega)).1

/-- Which block holds a piece depends only on the bytes of the indirect block. -/
theorem dataBlock_congr
    (same : ∀ table, blockOf dblockCount inode.indirect = some table →
      ∀ a, a / layout.blockSize = table → data' a = data a) :
    dataBlock layout dblockCount inode data' piece =
      dataBlock layout dblockCount inode data piece := by
  -- A direct piece needs no entry, and an indirect one needs the bytes of the indirect block.
  rcases Nat.lt_or_ge piece layout.numDirectBlocks with direct | indirect
  · rw [dataBlock_direct direct, dataBlock_direct direct]
  · -- Where the entry is looked up at all, it is the same one.
    rw [dataBlock_indirect indirect, dataBlock_indirect indirect]
    split
    next small =>
      cases found : blockOf dblockCount inode.indirect with
      | none => rw [Option.bind_none, Option.bind_none]
      | some table =>
        rw [Option.bind_some, Option.bind_some, tableEntry_congr small (same table found)]
    · rfl

/-- The blocks with the bytes of a file are different ones, and none of them is the indirect one. -/
structure Apart (layout : Layout) (dblockCount : Nat) (inode : Inode) (data : Memory) : Prop where
  distinct : (dataBlock layout dblockCount inode data).Distinct
  table : ∀ piece block, dataBlock layout dblockCount inode data piece = some block →
    blockOf dblockCount inode.indirect ≠ some block

/-- What writing bytes to a stretch of a file does to the data. -/
structure Wrote (layout : Layout) (dblockCount : Nat) (inode : Inode) (data : Memory)
    (start : Nat) (buf : List UInt8) (after : Memory) : Prop where
  blocks : dataBlock layout dblockCount inode after = dataBlock layout dblockCount inode data
  view : (dataBlock layout dblockCount inode after).view layout.blockSize after =
    ((dataBlock layout dblockCount inode data).view layout.blockSize data).writeBytes start buf
  outside : ∀ a, (∀ piece, dataBlock layout dblockCount inode data piece ≠
    some (a / layout.blockSize)) → after a = data a
  held : ∀ position, start ≤ position → position < start + buf.length →
    (dataBlock layout dblockCount inode data (position / layout.blockSize)).isSome

namespace Wrote

/-- Writing nothing. -/
theorem nil : Wrote layout dblockCount inode data start [] data where
  -- The new bytes are none, so nothing is to be shown about them.
  blocks := rfl
  view := by rw [Memory.writeBytes_nil]
  outside _ _ := rfl
  held position lower upper := absurd lower (by simpa using upper)

/-- The blocks stay apart. -/
theorem apart (wrote : Wrote layout dblockCount inode data start buf after)
    (separate : Apart layout dblockCount inode data) : Apart layout dblockCount inode after where
  -- The blocks are the same before and after.
  distinct := by
    rw [wrote.blocks]
    exact separate.distinct
  table := by
    rw [wrote.blocks]
    exact separate.table

/-- One piece of the bytes is copied into one block. -/
theorem chunk (separate : Apart layout dblockCount inode data)
    (held : dataBlock layout dblockCount inode data indexDb = some block)
    (fits : offsetDb + buf.length ≤ layout.blockSize) :
    Wrote layout dblockCount inode data (indexDb * layout.blockSize + offsetDb) buf
      (data.writeBytes (block * layout.blockSize + offsetDb) buf) := by
  -- The copy leaves every other block alone, and so the entries of the indirect one.
  have others : ∀ a, a / layout.blockSize ≠ block →
      data.writeBytes (block * layout.blockSize + offsetDb) buf a = data a :=
    fun a other => BlockMap.writeBytes_of_other_block fits other
  have blocks : dataBlock layout dblockCount inode
      (data.writeBytes (block * layout.blockSize + offsetDb) buf) =
        dataBlock layout dblockCount inode data := by
    funext piece
    apply dataBlock_congr
    intro table found a inside
    refine others a fun equal => separate.table indexDb block held ?_
    rw [found, ← inside, equal]
  constructor
  · exact blocks
  · rw [blocks]
    exact BlockMap.view_writeBytes_of_piece separate.distinct held fits
  · intro a apart
    exact others a fun equal => apart indexDb (equal ▸ held)
  · -- All positions of the stretch belong to the one piece.
    intro position lower upper
    obtain ⟨inner, rfl⟩ := Nat.exists_eq_add_of_le (Nat.le_of_add_right_le lower)
    rw [(BlockMap.div_mod_of_offset (by omega)).1, held]
    rfl

/-- Two writes one behind the other are one write. -/
theorem append (first : Wrote layout dblockCount inode data start front after)
    (second : Wrote layout dblockCount inode after (start + front.length) back data') :
    Wrote layout dblockCount inode data start (front ++ back) data' where
  blocks := second.blocks.trans first.blocks
  view := by rw [second.view, first.view, Memory.writeBytes_append]
  outside a apart := by
    rw [second.outside a, first.outside a apart]
    rw [first.blocks]
    exact apart
  held position lower upper := by
    rw [List.length_append] at upper
    -- A position belongs to the first stretch or to the second.
    rcases Nat.lt_or_ge position (start + front.length) with before | behind
    · exact first.held position lower before
    · rw [← first.blocks]
      exact second.held position behind (by omega)

end Wrote

/-- The loop of a write ends when no bytes are left. -/
@[simp] theorem writeBlocks_nil : writeBlocks layout dblockCount inode fuel data [] indexDb offsetDb
    off = some (data, off) := by
  cases fuel <;> rfl

/-- The loop of a read ends when no bytes are left. -/
@[simp] theorem readBlocks_zero : readBlocks layout dblockCount inode data fuel 0 indexDb offsetDb
    off = some ([], off) := by
  cases fuel <;> rfl

/-- Where the next round of a loop starts after one that came to the end of a block. -/
theorem next_start (inside : offsetDb < layout.blockSize) :
    (indexDb + 1) * layout.blockSize + 0 =
      indexDb * layout.blockSize + offsetDb + (layout.blockSize - offsetDb) := by
  rw [Nat.succ_mul]
  omega

/-- The loop of a write, from any block and any offset in there. -/
theorem writeBlocks_wrote {newOff : Nat} (separate : Apart layout dblockCount inode data)
    (inside : offsetDb < layout.blockSize)
    (done : writeBlocks layout dblockCount inode fuel data buf indexDb offsetDb off =
      some (after, newOff)) :
    Wrote layout dblockCount inode data (indexDb * layout.blockSize + offsetDb) buf after ∧
      newOff = off + buf.length := by
  -- Each round copies a piece into one block, and the rest is the same loop from the next block.
  induction fuel generalizing data buf indexDb offsetDb off with
  | zero =>
    cases buf with
    | nil =>
      obtain ⟨rfl, rfl⟩ := Prod.mk.inj (Option.some.inj done)
      exact ⟨.nil, rfl⟩
    | cons byte rest => cases done
  | succ fuel ih =>
    cases buf with
    | nil =>
      obtain ⟨rfl, rfl⟩ := Prod.mk.inj (Option.some.inj done)
      exact ⟨.nil, rfl⟩
    | cons byte rest =>
      simp only [writeBlocks] at done
      generalize byte :: rest = buf at done ⊢
      cases held : dataBlock layout dblockCount inode data indexDb with
      | none => simp [held] at done
      | some block =>
        simp only [held] at done
        -- This round writes up to the end of the block or of the bytes.
        have first : Wrote layout dblockCount inode data (indexDb * layout.blockSize + offsetDb)
            (buf.take (min (layout.blockSize - offsetDb) buf.length)) _ :=
          .chunk separate held (by rw [List.length_take]; omega)
        -- The rest starts at the beginning of the next block.
        obtain ⟨second, moved⟩ := ih (first.apart separate) layout.blockSize_pos done
        rcases Nat.le_total buf.length (layout.blockSize - offsetDb) with last | more
        · -- All bytes fit into the block, so the next round finds nothing left.
          rw [Nat.min_eq_right last, List.drop_length, writeBlocks_nil, List.take_length] at done
          rw [Nat.min_eq_right last, List.take_length] at first
          obtain ⟨rfl, rfl⟩ := Prod.mk.inj (Option.some.inj done)
          exact ⟨first, rfl⟩
        · -- The next round starts where the end of the block is.
          rw [Nat.min_eq_left more] at first second moved
          have follows : (indexDb + 1) * layout.blockSize + 0 =
              indexDb * layout.blockSize + offsetDb +
                (buf.take (layout.blockSize - offsetDb)).length := by
            rw [next_start inside, List.length_take, Nat.min_eq_left more]
          rw [follows] at second
          have whole := first.append second
          rw [List.take_append_drop] at whole
          rw [List.length_drop] at moved
          exact ⟨whole, by omega⟩

/-- The loop of a write comes to its end when every position that it writes has a block. -/
theorem writeBlocks_done (separate : Apart layout dblockCount inode data)
    (inside : offsetDb < layout.blockSize) (enough : buf.length ≤ fuel)
    (held : ∀ position, indexDb * layout.blockSize + offsetDb ≤ position →
      position < indexDb * layout.blockSize + offsetDb + buf.length →
      (dataBlock layout dblockCount inode data (position / layout.blockSize)).isSome) :
    ∃ result, writeBlocks layout dblockCount inode fuel data buf indexDb offsetDb off =
      some result := by
  -- Each round finds its block and leaves fewer bytes, and the file keeps its blocks.
  induction fuel generalizing data buf indexDb offsetDb off with
  | zero =>
    obtain rfl : buf = [] := List.length_eq_zero_iff.mp (by omega)
    exact ⟨_, writeBlocks_nil⟩
  | succ fuel ih =>
    cases buf with
    | nil => exact ⟨_, writeBlocks_nil⟩
    | cons byte rest =>
      -- The first position that is left lies in the block of this round.
      have here := held (indexDb * layout.blockSize + offsetDb) (by omega) (by simp)
      rw [(BlockMap.div_mod_of_offset inside).1] at here
      obtain ⟨block, found⟩ := Option.isSome_iff_exists.mp here
      simp only [writeBlocks, found]
      generalize whole : byte :: rest = buf at *
      have nonempty : 0 < buf.length := by simp [← whole]
      -- What this round writes leaves the blocks of the file where they are.
      have first : Wrote layout dblockCount inode data (indexDb * layout.blockSize + offsetDb)
          (buf.take (min (layout.blockSize - offsetDb) buf.length)) _ :=
        .chunk separate found (by rw [List.length_take]; omega)
      -- The positions that are left are some of those that had blocks.
      apply ih (first.apart separate) layout.blockSize_pos
      · rw [List.length_drop]
        omega
      · intro position lower upper
        rw [List.length_drop] at upper
        rw [first.blocks]
        rw [next_start inside] at lower upper
        exact held position (by omega) (by omega)

/-- The loop of a read, from any block and any offset in there. -/
theorem readBlocks_eq (inside : offsetDb < layout.blockSize) (enough : count ≤ fuel)
    (held : ∀ position, indexDb * layout.blockSize + offsetDb ≤ position →
      position < indexDb * layout.blockSize + offsetDb + count →
      (dataBlock layout dblockCount inode data (position / layout.blockSize)).isSome) :
    readBlocks layout dblockCount inode data fuel count indexDb offsetDb off =
      some (((dataBlock layout dblockCount inode data).view layout.blockSize data).readBytes
        (indexDb * layout.blockSize + offsetDb) count, off + count) := by
  -- Each round reads a piece out of one block, and the rest is the same loop from the next block.
  induction fuel generalizing count indexDb offsetDb off with
  | zero =>
    obtain rfl : count = 0 := by omega
    rfl
  | succ fuel ih =>
    cases count with
    | zero => rfl
    | succ count =>
      -- The first position that is read lies in the block of this round.
      have here := held (indexDb * layout.blockSize + offsetDb) (by omega) (by omega)
      rw [(BlockMap.div_mod_of_offset inside).1] at here
      obtain ⟨block, found⟩ := Option.isSome_iff_exists.mp here
      simp only [readBlocks, found]
      generalize count + 1 = count at *
      rcases Nat.le_total count (layout.blockSize - offsetDb) with last | more
      · -- All bytes come out of this block.
        rw [Nat.min_eq_right last, Nat.sub_self, readBlocks_zero,
          BlockMap.readBytes_of_piece found (by omega)]
        simp only [List.append_nil]
      · -- The next round starts where the end of the block is.
        rw [Nat.min_eq_left more, BlockMap.readBytes_of_piece found (by omega)]
        -- The rest is read from the beginning of the next block.
        have rest := @ih (indexDb + 1) 0 (off + (layout.blockSize - offsetDb))
          (count - (layout.blockSize - offsetDb)) layout.blockSize_pos (by omega)
          fun position lower upper => held position (by rw [next_start inside] at lower; omega)
            (by rw [next_start inside] at upper; omega)
        rw [rest]
        simp only [next_start inside, ← Memory.readBytes_append]
        rw [Nat.add_assoc, Nat.add_sub_of_le more]

end SystemProgramming.Minixfs
