import Mathlib.Algebra.Order.Ring.Int
import SystemProgramming.Sstring.Split

/-! Whether the buffers that the calls allocate are large enough for what is stored in them. -/

namespace SystemProgramming.Sstring

open Foundations Foundations.Strings

/-- An `int` that is converted to a `size_t`, where the `int` may have wrapped around. -/
def asSize (value : Int) : Nat := (value.bmod (2 ^ 32) % 2 ^ 64).toNat

/-- `sstring_slice`, of a part that is in the string: the buffer that is returned. -/
def sstringSlice (i : Nat) (first last : Int) (st : State) : Option Buffer := do
  let this ← st.members[i]?
  let res := (Buffer.malloc (asSize (last - first + 1))).store (last - first).toNat 0
  let source ← st.heap.string this.s first.toNat
  some (res.strncpy 0 source (asSize (last - first)))

/-- The buffer that `sstring_substitute` allocates, if it finds its target. -/
def newString (i offset : Nat) (target substitution : Option (List UInt8)) (st : State) :
    Option (List Buffer) :=
  match target, substitution with
  | some target, some substitution => do
    let this ← st.members[i]?
    let searched ← st.heap.string this.s offset
    match strstr searched target with
    | none => some []
    | some place =>
      let lenBeforeTarget := offset + place
      let newLength := this.length - target.length + substitution.length
      let whole ← st.heap.string this.s 0
      let before := (Buffer.malloc (newLength + 1)).strncpy 0 whole lenBeforeTarget
      let replaced := before.strncpy lenBeforeTarget substitution substitution.length
      let foundTarget ← st.heap.string this.s (lenBeforeTarget + target.length)
      some [replaced.strcpy (lenBeforeTarget + substitution.length) foundTarget]
  | _, _ => some []

/-- The buffer that `sstring_append` reallocates, after so many turns of the loop of `strcat`. -/
def appended (turns i j : Nat) (st : State) : Option Buffer := do
  let this ← st.members[i]?
  let addition ← st.members[j]?
  let block ← st.heap.blocks this.s
  let other ← st.heap.blocks addition.s
  -- If it is the same sstring, its characters are by then in the buffer.
  (Buffer.realloc block (this.length + addition.length + 1)).strcat turns fun s =>
    if i = j then s.bytes else other

/-- A call that allocates buffers and fills them. -/
inductive Call where
  | split (this : Nat) (delimiter : UInt8)
  | slice (this : Nat) (first last : Int)
  | substitute (this offset : Nat) (target substitution : Option (List UInt8))
  | append (this addition : Nat)
  deriving DecidableEq, Repr

namespace Call

/-- The buffers that a call allocates, with what it has stored in them after so many turns. -/
def buffers (turns : Nat) (st : State) : Call → Option (List Buffer)
  | split i delimiter => (sstringSplit i delimiter st).map Splitting.buffers
  | slice i first last => (sstringSlice i first last st).map fun res => [res]
  | substitute i offset target substitution => newString i offset target substitution st
  | append i j => (appended turns i j st).map fun s => [s]

/-- What a caller has to give; the ends of a slice are in the string. -/
def Valid (st : State) : Call → Prop
  | split i _ => i < st.members.length
  | slice i first last => ∃ this, st.members[i]? = some this ∧ 0 ≤ first ∧ first ≤ last ∧
    last ≤ this.length ∧ last < 2 ^ 31
  | substitute i offset target substitution =>
    (Operation.substitute i offset target substitution).Valid st
  | append i j => (Operation.append i j).Valid st

/-- All stores of a call, however many turns it takes, are inside the buffers. -/
def StaysInside (st : State) (call : Call) : Prop :=
  ∀ turns, ∃ buffers, call.buffers turns st = some buffers ∧ ∀ buffer ∈ buffers, buffer.Within

/-- The call is no split, and no append of an sstring that has characters to itself. -/
def Roomy (st : State) : Call → Prop
  | split _ _ => False
  | append i j => (Operation.append i j).Apart st
  | slice _ _ _ | substitute _ _ _ _ => True

end Call

variable {st : State} {texts : List (List UInt8)} {i j : Nat} {this : Sstring} {first last : Int}
  {trace : List (Transition State Operation)}

/-- A split stores the zero byte of each piece behind its buffer. -/
theorem split_outside (shows : Shows st texts) (inside : i < st.members.length) (delimiter : UInt8) :
    ¬ (Call.split i delimiter).StaysInside st := by
  -- There is a piece, and its zero byte has the index that was asked for.
  intro stays
  obtain ⟨_, split, _, _, done, _, nonempty, short⟩ :=
    sstringSplit_spec shows (List.getElem?_eq_getElem inside) delimiter
  obtain ⟨buffers, same, within⟩ := stays 0
  rw [Call.buffers, done, Option.map_some] at same
  obtain rfl := Option.some.inj same
  obtain ⟨w, others, made⟩ := List.exists_cons_of_ne_nil nonempty
  have member : w ∈ split.buffers := by
    rw [made]
    exact List.mem_cons_self
  exact Nat.lt_irrefl _ (within w member _ (short w member).1)

section Slices

/-- An index fits in one byte more, also where the size in `int` is one too large for it. -/
theorem lt_asSize {count : Int} (lower : 0 ≤ count) (upper : count < 2 ^ 31) :
    asSize count = count.toNat ∧ count.toNat < asSize (count + 1) := by
  -- Only the largest `int` has no successor; its size wraps to a large one.
  have itself : count.bmod (2 ^ 32) = count := Int.bmod_eq_of_le (by omega) (by omega)
  rw [asSize, asSize, itself]
  refine ⟨by omega, ?_⟩
  rcases Int.lt_or_le (count + 1) (2 ^ 31) with more | most
  · have next : (count + 1).bmod (2 ^ 32) = count + 1 := Int.bmod_eq_of_le (by omega) (by omega)
    rw [next]
    omega
  · obtain rfl : count = 2 ^ 31 - 1 := by omega
    decide

theorem slice_inside (shows : Shows st texts) (made : st.members[i]? = some this)
    (lower : 0 ≤ first) (ordered : first ≤ last) (upper : last ≤ this.length)
    (fits : last < 2 ^ 31) : (Call.slice i first last).StaysInside st := by
  intro turns
  obtain ⟨text, _, length, read⟩ := shows.text made
  have source := Heap.string_drop read (show first.toNat ≤ text.length by omega)
  obtain ⟨count, room⟩ := lt_asSize (show 0 ≤ last - first by omega) (by omega)
  have sliced : (Call.slice i first last).buffers turns st = some
      [((Buffer.malloc (asSize (last - first + 1))).store (last - first).toNat 0).strncpy 0
        (text.drop first.toNat) (asSize (last - first))] := by
    rw [Call.buffers, sstringSlice, made]
    simp only [Option.bind_eq_bind, Option.bind_some, source, Option.map_some]
  refine ⟨_, sliced, ?_⟩
  simp only [List.mem_singleton, forall_eq]
  refine Buffer.Within.strncpy (Buffer.within_store_iff.mpr ⟨Buffer.within_malloc, room⟩) ?_
  rw [Nat.zero_add, count, Buffer.requested_store]
  exact room.le

end Slices

/-- The parts before and behind a target, and what replaces it, fill the new buffer to its end. -/
theorem substitute_inside {offset : Nat} {target substitution : Option (List UInt8)}
    (shows : Shows st texts)
    (valid : (Operation.substitute i offset target substitution).Valid st) :
    (Call.substitute i offset target substitution).StaysInside st := by
  intro turns
  obtain ⟨⟨this, made, within⟩, _, _⟩ := valid
  obtain ⟨whole, _, count, read⟩ := shows.text made
  rw [count] at within
  cases target with
  | none => exact ⟨[], rfl, by simp⟩
  | some needle =>
    cases substitution with
    | none => exact ⟨[], rfl, by simp⟩
    | some replacement =>
      rw [Call.buffers, newString, made]
      simp only [Option.bind_eq_bind, Option.bind_some, Heap.string_drop read within]
      cases found : strstr (whole.drop offset) needle with
      | none => exact ⟨[], rfl, by simp⟩
      | some place =>
        have first := FirstOccurrence.of_drop within (strstr_eq_some found)
        have inside := first.2.1
        have fits := first.2.2.1.length_le
        rw [List.length_drop] at fits
        have behind := Heap.string_drop read (show offset + place + needle.length ≤ whole.length by omega)
        simp only [read, behind, Option.bind_some, count]
        -- The three parts that are copied fill the buffer, with the zero byte at its end.
        refine ⟨_, rfl, ?_⟩
        simp only [List.mem_singleton, forall_eq]
        refine Buffer.Within.strcpy (Buffer.Within.strncpy (Buffer.Within.strncpy
          Buffer.within_malloc ?_) ?_) ?_
        · show 0 + (offset + place) ≤ whole.length - needle.length + replacement.length + 1
          omega
        · rw [Buffer.requested_strncpy]
          show _ ≤ whole.length - needle.length + replacement.length + 1
          omega
        · rw [Buffer.requested_strncpy, Buffer.requested_strncpy, List.length_drop]
          show _ < whole.length - needle.length + replacement.length + 1
          omega

section Appends

/-- `sstring_append` copies behind the string, in a buffer that has room for both. -/
theorem appended_eq {text more : List UInt8} {other : Sstring} {block rest : Block} (turns : Nat)
    (first : st.members[i]? = some this) (second : st.members[j]? = some other)
    (length : this.length = text.length) (length' : other.length = more.length)
    (plain : (0 : UInt8) ∉ text)
    (stored : st.heap.blocks this.s = some (text.map some ++ some 0 :: rest))
    (stored' : st.heap.blocks other.s = some block) :
    appended turns i j st =
      Buffer.copyString turns (fun s => if i = j then s.bytes else block) 0 text.length
        (Buffer.realloc (text.map some ++ some 0 :: rest) (text.length + more.length + 1)) := by
  obtain ⟨room, kept⟩ := @Buffer.bytes_realloc rest text more.length
  rw [appended, first, second]
  simp only [Option.bind_eq_bind, Option.bind_some, stored, stored', length, length']
  rw [Buffer.strcat, kept, text_append plain, Option.bind_some]

/-- An sstring that is appended to another lies in a block of its own. -/
theorem append_inside (shows : Shows st texts) (inside : i < st.members.length)
    (inside' : j < st.members.length) (apart : i ≠ j) : (Call.append i j).StaysInside st := by
  -- The loop ends at the zero byte of the other string, for which there is room.
  intro turns
  have first := List.getElem?_eq_getElem inside
  have second := List.getElem?_eq_getElem inside'
  obtain ⟨text, rest, _, length, plain, stored⟩ := shows.block first
  obtain ⟨more, rest', _, length', _, stored'⟩ := shows.block second
  have copy := appended_eq turns first second length length' plain stored stored'
  simp only [if_neg apart] at copy
  obtain ⟨after, done, within⟩ := @Buffer.Within.copyString_apart [] rest' more text.length turns _
    (@Buffer.within_realloc (text.map some ++ some 0 :: rest) (text.length + more.length + 1))
    (Nat.lt_succ_self _)
  refine ⟨[after], ?_, by simpa using within⟩
  rw [Call.buffers, copy]
  exact congrArg (Option.map fun s => [s]) done

/-- An sstring is appended to itself inside its buffer exactly if it is empty. -/
theorem append_self_iff (shows : Shows st texts) (inside : i < st.members.length) :
    (Call.append i i).StaysInside st ↔ st.members[i].length = 0 := by
  -- The loop runs in the buffer, from its first character on.
  have made := List.getElem?_eq_getElem inside
  obtain ⟨text, rest, _, length, plain, stored⟩ := shows.block made
  obtain ⟨room, kept⟩ := @Buffer.bytes_realloc rest text text.length
  have copy (turns : Nat) := appended_eq turns made made length length plain stored stored
  simp only [if_true] at copy
  rw [length]
  constructor
  · intro stays
    by_contra nonempty
    -- After two turns more than there are characters, the loop has left the buffer.
    obtain ⟨buffers, same, within⟩ := stays (text.length + 2)
    obtain ⟨after, done, requested, stores⟩ := Buffer.stores_append_self (text.length + 2) kept
      plain (mt List.length_eq_zero_iff.mpr nonempty)
    have filled : (Call.append i i).buffers (text.length + 2) st = some [after] := by
      rw [Call.buffers, copy]
      exact congrArg (Option.map fun s => [s]) done
    obtain rfl := Option.some.inj (same.symm.trans filled)
    have outside := within after List.mem_cons_self (text.length + text.length + 1) (by
      rw [stores, List.mem_append, List.mem_range'_1]
      exact .inr ⟨by omega, by omega⟩)
    rw [requested] at outside
    exact Nat.lt_irrefl _ outside
  · intro empty turns
    obtain rfl := List.length_eq_zero_iff.mp empty
    obtain ⟨after, done, within⟩ := @Buffer.Within.copyString_empty room turns _
      (@Buffer.within_realloc (([] : List UInt8).map some ++ some 0 :: rest) (0 + 0 + 1))
      (Nat.lt_succ_self _) kept
    refine ⟨[after], ?_, by simpa using within⟩
    rw [Call.buffers, copy]
    exact congrArg (Option.map fun s => [s]) done

end Appends

/-- The stores of a call are inside its buffers exactly if the call is roomy. -/
theorem Shows.roomy_iff (shows : Shows st texts) {call : Call} (valid : call.Valid st) :
    call.StaysInside st ↔ call.Roomy st := by
  cases call with
  | split i delimiter => exact iff_of_false (split_outside shows valid delimiter) id
  | slice i first last =>
    obtain ⟨this, made, lower, ordered, upper, fits⟩ := valid
    exact iff_of_true (slice_inside shows made lower ordered upper fits) trivial
  | substitute i offset target substitution =>
    exact iff_of_true (substitute_inside shows valid) trivial
  | append i j =>
    by_cases same : i = j
    · subst same
      exact (append_self_iff shows valid.1).trans (apart_self_iff valid.1).symm
    · exact iff_of_true (append_inside shows valid.1 valid.2 same) (apart_of_ne same)

/-- The call on the heap, for the calls that change an sstring. -/
def Call.operation : Call → Option Operation
  | append i j => some (.append i j)
  | substitute i offset target substitution => some (.substitute i offset target substitution)
  | split _ _ | slice _ _ _ => none

/--
On the heap, in which nothing can be stored outside of a block, the calls that return are those whose
stores are all inside their buffers.
-/
theorem Shows.returns_iff (shows : Shows st texts) {call : Call} {operation : Operation}
    (valid : call.Valid st) (same : call.operation = some operation) :
    (∃ result, execute st operation = some result) ↔ call.StaysInside st := by
  rw [shows.roomy_iff valid]
  -- What returns are the operations whose sstrings are apart.
  have returns : ∀ operation : Operation, operation.Valid st →
      ((∃ result, execute st operation = some result) ↔ operation.Apart st) := by
    intro operation valid
    obtain ⟨works, fails⟩ := works_or_fails shows valid
    constructor
    · rintro ⟨result, done⟩
      by_contra close
      rw [fails close] at done
      cases done
    · intro apart
      obtain ⟨reply, after, _, done, _⟩ := works apart
      exact ⟨_, done⟩
  cases call with
  | split i delimiter => cases same
  | slice i first last => cases same
  | append i j =>
    obtain rfl := Option.some.inj same
    exact returns _ valid
  | substitute i offset target substitution =>
    obtain rfl := Option.some.inj same
    exact (returns (.substitute i offset target substitution) valid).trans
      (iff_of_true (by simp [Operation.Apart]) trivial)

/--
In every run, a call stores only to indices that are in the buffers it allocates, exactly if it is no
split, and no append of an sstring that has characters to itself.
-/
theorem stays_inside_iff (run : Run Step start trace st) (call : Call) (valid : call.Valid st) :
    call.StaysInside st ↔ call.Roomy st := by
  obtain ⟨texts, shows⟩ := shows_of_run run
  exact shows.roomy_iff valid

/-- The last two characters of "abc" fit into their buffer. -/
theorem stays_inside_iff_abc : (Call.slice 0 1 3).StaysInside sampleAbc :=
  (stays_inside_iff sample_run (.slice 0 1 3) ⟨⟨0, 3⟩, rfl, by decide⟩).mpr trivial

/-- To split "abc" at a comma, 3 bytes are asked for, and 4 are stored. -/
theorem split_one_short :
    (Call.split 0 44).buffers 0 sampleAbc =
      some [⟨3, [some 97, some 98, some 99, some 0], [0, 1, 2, 3]⟩] ∧
    ¬ ∀ trace final, Run Step start trace final → ∀ call : Call, call.Valid final →
      call.StaysInside final := by
  have filled : (Call.split 0 44).buffers 0 sampleAbc =
      some [⟨3, [some 97, some 98, some 99, some 0], [0, 1, 2, 3]⟩] := by decide
  refine ⟨filled, fun claim => ?_⟩
  obtain ⟨buffers, same, within⟩ := claim _ _ sample_run (.split 0 44) (by simp [Call.Valid, sampleAbc]) 0
  obtain rfl := Option.some.inj (same.symm.trans filled)
  exact absurd (within _ List.mem_cons_self) (by decide)

end SystemProgramming.Sstring
