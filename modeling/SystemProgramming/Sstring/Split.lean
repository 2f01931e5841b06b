import SystemProgramming.Foundations.Buffers
import SystemProgramming.Foundations.Loops
import SystemProgramming.Sstring.Texts

/-! Splitting a string at a delimiter, and joining the pieces again. -/

namespace SystemProgramming.Sstring

open Foundations Foundations.Strings

/--
How far a split has come: where the next piece starts, the strings in the vector that is returned, and
the buffers that they were copied from.
-/
structure Splitting where
  start : Nat
  ret : List (List UInt8)
  buffers : List Buffer
  deriving DecidableEq, Repr

/--
So many characters go to a new buffer, and the vector gets a copy of the string in there. The zero
byte is stored behind the bytes that were asked for, where the buffer keeps it.
-/
def pushPiece (this : Sstring) (heap : Heap) (len : Nat) (now : Splitting) : Option Splitting := do
  let source ← heap.string this.s now.start
  let w := ((Buffer.malloc len).strncpy 0 source len).store len 0
  let copy ← text w.bytes
  some { now with ret := now.ret ++ [copy], buffers := now.buffers ++ [w] }

/-- The turn of the loop in `sstring_split`. -/
def splitAt (this : Sstring) (heap : Heap) (delimiter : UInt8) (i : Nat) (now : Splitting) :
    Option Splitting := do
  let block ← heap.blocks this.s
  let character ← block[i]?.join
  if character = delimiter then
    let now ← pushPiece this heap (i - now.start) now
    some { now with start := i + 1 }
  else some now

/-- `sstring_split`. -/
def sstringSplit (i : Nat) (delimiter : UInt8) (st : State) : Option Splitting := do
  let this ← st.members[i]?
  let now ← forUp (splitAt this st.heap delimiter) 0 this.length ⟨0, [], []⟩
  pushPiece this st.heap (this.length - now.start) now

/-- The zero byte is stored one behind the bytes that were asked for, and nothing further behind. -/
def OneShort (w : Buffer) : Prop := w.requested ∈ w.stores ∧ ∀ i ∈ w.stores, i ≤ w.requested

variable {st : State} {texts : List (List UInt8)} {i len : Nat} {this : Sstring} {heap : Heap}
  {characters : List UInt8} {delimiter : UInt8} {now : Splitting}
  {trace : List (Transition State Operation)}

section Loop

/-- A piece is pushed as it is, for a buffer of as many bytes as it has characters. -/
theorem pushPiece_eq (read : heap.string this.s 0 = some characters)
    (inside : now.start + len ≤ characters.length) :
    ∃ w, OneShort w ∧ pushPiece this heap len now = some
      ⟨now.start, now.ret ++ [(characters.drop now.start).take len], now.buffers ++ [w]⟩ := by
  -- The characters fill the buffer, and the zero byte comes behind them.
  obtain ⟨plain, _⟩ := Heap.string_eq_some read
  have enough : len ≤ (characters.drop now.start).length := by
    rw [List.length_drop]
    omega
  have count : ((characters.drop now.start).take len).length = len := List.length_take_of_le enough
  refine ⟨((Buffer.malloc len).strncpy 0 (characters.drop now.start) len).store len 0, ?_, ?_⟩
  · rw [OneShort, Buffer.stores_store, Buffer.requested_store, Buffer.strncpy,
      Buffer.requested_write, Buffer.stores_write]
    simp only [Buffer.malloc, List.nil_append, List.mem_append, List.mem_range'_1, List.mem_singleton,
      List.length_append, List.length_replicate, count]
    exact ⟨.inr trivial, fun i member => by omega⟩
  · have filled : (((Buffer.malloc len).strncpy 0 (characters.drop now.start) len).store len 0).bytes =
        ((characters.drop now.start).take len).map some ++ some 0 :: [] := by
      have behind := @put_behind (((characters.drop now.start).take len).map some) [] 0
      rw [List.length_map, count, List.append_nil] at behind
      rw [Buffer.store, Buffer.bytes_strncpy_malloc enough, behind]
      rfl
    have copied : text (((characters.drop now.start).take len).map some ++ some 0 :: []) =
        some ((characters.drop now.start).take len) :=
      text_append fun member => plain (List.mem_of_mem_drop (List.mem_of_mem_take member))
    rw [pushPiece, Heap.string_drop read (by omega)]
    simp only [Option.bind_eq_bind, Option.bind_some, filled, copied]

/-- What a split has cut off before its turn for an index. -/
structure Cutting (characters : List UInt8) (delimiter : UInt8) (i : Nat) (now : Splitting) : Prop where
  within : now.start ≤ i
  pieces : characters.splitOn delimiter =
    now.ret ++ (characters.drop now.start).splitOn delimiter
  uncut : delimiter ∉ (characters.drop now.start).take (i - now.start)
  short : ∀ w ∈ now.buffers, OneShort w

/-- A turn cuts at the delimiter, or goes on with the piece. -/
theorem Cutting.turn (cutting : Cutting characters delimiter i now)
    (read : heap.string this.s 0 = some characters) (below : i < characters.length) :
    ∃ next, splitAt this heap delimiter i now = some next ∧
      Cutting characters delimiter (i + 1) next := by
  obtain ⟨plain, rest, stored⟩ := Heap.string_eq_some read
  have within := cutting.within
  have character : (characters.map some ++ some 0 :: rest)[i]?.join = some characters[i] := by
    rw [List.getElem?_append_left (by rwa [List.length_map]), List.getElem?_map,
      List.getElem?_eq_getElem below]
    rfl
  -- The piece so far, and the character behind it.
  have window : (characters.drop now.start).take (i + 1 - now.start) =
      (characters.drop now.start).take (i - now.start) ++ [characters[i]] := by
    rw [Nat.sub_add_comm within, List.take_add_one, List.getElem?_drop, Nat.add_sub_of_le within,
      List.getElem?_eq_getElem below]
    rfl
  have whole : characters.drop now.start = (characters.drop now.start).take (i - now.start) ++
      characters[i] :: characters.drop (i + 1) := by
    have behind : (characters.drop now.start).drop (i - now.start) =
        characters[i] :: characters.drop (i + 1) := by
      rw [List.drop_drop, Nat.add_sub_of_le within, List.drop_eq_getElem_cons below]
    rw [← behind, List.take_append_drop]
  rw [splitAt, stored]
  simp only [Option.bind_eq_bind, Option.bind_some, character]
  split
  · rename_i same
    obtain ⟨w, short, pushed⟩ := @pushPiece_eq (i - now.start) _ _ _ now read (by omega)
    refine ⟨_, by rw [pushed]; rfl, ⟨Nat.le_refl _, ?_, by simp, ?_⟩⟩
    · have cut := List.splitOn_append_cons_self_of_not_mem cutting.uncut (characters.drop (i + 1))
      rw [← same] at cut ⊢
      rw [← whole] at cut
      rw [same, cutting.pieces, ← same, cut, List.append_assoc, List.singleton_append]
    · simp only [List.mem_append, List.mem_singleton]
      rintro w' (before | rfl)
      · exact cutting.short w' before
      · exact short
  · rename_i other
    refine ⟨now, rfl, ⟨by omega, cutting.pieces, ?_, cutting.short⟩⟩
    rw [window]
    simp [cutting.uncut, Ne.symm other]

end Loop

/-- A split returns the pieces of the string, and all its buffers are one byte short. -/
theorem sstringSplit_spec (shows : Shows st texts) (made : st.members[i]? = some this)
    (delimiter : UInt8) :
    ∃ characters split, st.heap.string this.s 0 = some characters ∧
      this.length = characters.length ∧ sstringSplit i delimiter st = some split ∧
      split.ret = characters.splitOn delimiter ∧ split.buffers ≠ [] ∧
      ∀ w ∈ split.buffers, OneShort w := by
  -- Behind the loop, the piece behind the last delimiter is left.
  obtain ⟨characters, _, length, read⟩ := shows.text made
  obtain ⟨now, looped, cutting⟩ := forUp_rule (splitAt this st.heap delimiter) ⟨0, [], []⟩
    (Cutting characters delimiter) (Nat.zero_le characters.length)
    ⟨Nat.le_refl _, by simp, by simp, by simp⟩
    fun i now _ below cutting => cutting.turn read below
  have within := cutting.within
  obtain ⟨w, short, pushed⟩ :=
    @pushPiece_eq (characters.length - now.start) _ _ _ now read (by omega)
  refine ⟨characters, ⟨now.start, now.ret ++ [(characters.drop now.start).take
    (characters.length - now.start)], now.buffers ++ [w]⟩, read, length, ?_, ?_, ?_, ?_⟩
  · rw [sstringSplit, made]
    simp only [Option.bind_eq_bind, Option.bind_some, length, looped]
    exact pushed
  · -- There is no delimiter behind the last one that was found.
    have last := cutting.uncut
    rw [← List.length_drop, List.take_length] at last
    rw [cutting.pieces, List.splitOn_eq_singleton last, ← List.length_drop, List.take_length]
  · simp
  · simp only [List.mem_append, List.mem_singleton]
    rintro w' (before | rfl)
    · exact cutting.short w' before
    · exact short

/-- "eabecdeeghe", split at "e". -/
example : ((execute start (.create [101, 97, 98, 101, 99, 100, 101, 101, 103, 104, 101])).bind
    fun made => (sstringSplit 0 101 made.2).map Splitting.ret) =
      some [[], [97, 98], [99, 100], [], [103, 104], []] := by
  decide

end SystemProgramming.Sstring
