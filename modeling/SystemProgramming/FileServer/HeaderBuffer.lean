import SystemProgramming.FileServer.Requests

/-! The header buffer: what the loop of `process_header` stores in it, and when it stays inside. -/

namespace SystemProgramming.FileServer

open Foundations

/--
What a round of the loop does with the header buffer: where `read` stores a byte, and the bytes that
were stored so far when `strlen` looks for the end of the string.
-/
structure HeaderAccess where
  stored : Option Nat
  buffer : List UInt8
  deriving DecidableEq, Repr

/-- How the loop stands after some rounds. -/
inductive HeaderEnd where
  | reading
  | line (header : List UInt8)
  | rejected
  deriving DecidableEq, Repr

/-- Where a read stores its byte, behind the bytes that were received before. -/
def ByteRead.index (received : List UInt8) : ByteRead → Option Nat
  | .byte _ => some received.length
  | _ => none

/-- The accesses of the rounds with these results of `read`, and how the loop stands after them. -/
def headerRounds : List ByteRead → List UInt8 → List HeaderAccess × HeaderEnd
  | [], received => ([], if received.length < headReadLimit then .reading else .rejected)
  | read :: reads, received =>
    if received.length < headReadLimit then
      let access := ⟨read.index received, read.store received⟩
      if (cString (read.store received)).getLast? = some newline then
        ([access], .line (cString (read.store received)))
      else if read.goesOn then
        let later := headerRounds reads (read.store received)
        (access :: later.1, later.2)
      else ([access], .rejected)
    else ([], .rejected)

/-- The bytes that the reads deliver before the first end or error. -/
def delivered : List ByteRead → List UInt8
  | [] => []
  | .byte value :: reads => value :: delivered reads
  | .interrupted :: reads => delivered reads
  | .failed :: _ => []
  | .ended :: _ => []

/-- The array, which was all zero at first, has a zero byte. -/
def Terminated (buffer : List UInt8) : Prop := ∃ index < headerSize, buffer.getD index 0 = 0

/-- The byte is stored in the array, and `strlen` stays in it. -/
def HeaderAccess.Inside (access : HeaderAccess) : Prop :=
  (∀ index, access.stored = some index → index < headerSize) ∧ Terminated access.buffer

/--
The loop keeps to its buffer in every round, hands a string in the buffer to `parse_request`, and
rejects what has no newline.
-/
structure KeepsToBuffer (reads : List ByteRead) : Prop where
  inside : ∀ access ∈ (headerRounds reads []).1, access.Inside
  parsed : ∀ header, (headerRounds reads []).2 = .line header → header.length < headerSize
  rejects : newline ∉ (delivered reads).take headReadLimit →
    (∃ read ∈ reads, read.goesOn = false) ∨ headReadLimit ≤ (delivered reads).length →
    (headerRounds reads []).2 = .rejected

/-- A line without a zero byte that leaves room for the end of the string. -/
def HasLine (bytes : List UInt8) : Prop :=
  ∃ front back, bytes = front ++ newline :: back ∧ newline ∉ front ∧ (0 : UInt8) ∉ front ∧
    front.length + 1 < headerSize

/-- The buffer has such a line, or room for all that comes, or for all with a zero byte in it. -/
def Fits (bytes : List UInt8) : Prop :=
  HasLine bytes ∨ bytes.length < headerSize ∨ bytes.length = headerSize ∧ (0 : UInt8) ∈ bytes

/-- What was received is in the array, and so is a zero byte. -/
def HasRoom (received : List UInt8) : Prop :=
  received.length < headerSize ∨ received.length = headerSize ∧ (0 : UInt8) ∈ received

variable {received rest front header : List UInt8} {reads : List ByteRead} {value : UInt8}
  {fragments : List Fragment} {stream : List UInt8} {fuel : Nat}

/-- The string goes on behind bytes that are not zero. -/
theorem cString_clean (clean : (0 : UInt8) ∉ front) :
    cString (front ++ rest) = front ++ cString rest :=
  List.takeWhile_append_of_pos fun _ member => decide_eq_true fun zero => clean (zero ▸ member)

/-- What follows a zero byte is not in the string. -/
theorem cString_append (nul : (0 : UInt8) ∈ received) :
    cString (received ++ rest) = cString received := by
  -- The string is what stands before the first zero byte.
  obtain ⟨front, back, rfl, clean⟩ := List.eq_append_cons_of_mem nul
  have ends (more : List UInt8) : cString (0 :: more) = [] := rfl
  rw [List.append_assoc, List.cons_append, cString_clean clean, cString_clean clean, ends, ends]

/-- A newline before any zero byte is in the string. -/
theorem newline_mem_cString (clean : (0 : UInt8) ∉ front) :
    newline ∈ cString (front ++ newline :: rest) := by
  have first : cString (newline :: rest) = newline :: cString rest := rfl
  rw [cString_clean clean, first]
  exact List.mem_append_right _ List.mem_cons_self

/-- A byte that is stored behind a string without a newline ends a line only if it is one. -/
theorem cString_snoc_getLast (unfinished : newline ∉ cString received) :
    (cString (received ++ [value])).getLast? = some newline ↔
      value = newline ∧ (0 : UInt8) ∉ received := by
  by_cases nul : (0 : UInt8) ∈ received
  · -- The new byte is behind the end of the string.
    rw [cString_append nul]
    exact iff_of_false (fun last => unfinished (List.mem_of_getLast? last)) fun both => both.2 nul
  · by_cases zero : value = 0
    · subst zero
      have same : cString (received ++ [0]) = received := by
        rw [cString_clean nul]
        exact List.append_nil received
      rw [same]
      rw [cString_eq nul] at unfinished
      exact iff_of_false (fun last => unfinished (List.mem_of_getLast? last)) fun both => by
        have impossible := both.1
        cases impossible
    · have whole : cString (received ++ [value]) = received ++ [value] := by
        apply cString_eq
        simp [nul, Ne.symm zero]
      rw [whole, List.getLast?_concat, Option.some.injEq]
      exact (and_iff_left nul).symm

/-- As long as no line ends, there is no newline in the string. -/
theorem unfinished_snoc (unfinished : newline ∉ cString received)
    (open_end : (cString (received ++ [value])).getLast? ≠ some newline) :
    newline ∉ cString (received ++ [value]) := by
  by_cases nul : (0 : UInt8) ∈ received
  · rwa [cString_append nul]
  · -- The string has at most the new byte more, and this is no newline.
    have different : value ≠ newline := fun same =>
      open_end ((cString_snoc_getLast unfinished).mpr ⟨same, nul⟩)
    rw [cString_eq nul] at unfinished
    intro member
    rcases List.mem_append.mp ((List.takeWhile_sublist _).mem member) with old | new
    · exact unfinished old
    · exact different (List.mem_singleton.mp new).symm

/-- A line that begins with a string that has no newline reaches behind it. -/
theorem HasLine.length_lt (unfinished : newline ∉ cString received)
    (line : HasLine (received ++ rest)) : received.length + 1 < headerSize := by
  obtain ⟨front, back, split, -, clean, short⟩ := line
  refine Nat.lt_of_le_of_lt (Nat.succ_le_succ ?_) short
  by_contra! longer
  -- Otherwise the newline is among the bytes that were received.
  obtain ⟨middle, inner, outer⟩ := List.append_eq_append_iff.mp split |>.resolve_left fun shorter => by
    obtain ⟨middle, inner, -⟩ := shorter
    have length := congrArg List.length inner
    rw [List.length_append] at length
    omega
  cases middle with
  | nil =>
    have length := congrArg List.length inner
    rw [List.append_nil] at length
    omega
  | cons first middle =>
    rw [List.cons_append] at outer
    obtain ⟨rfl, -⟩ := List.cons.inj outer
    rw [inner] at unfinished
    exact unfinished (newline_mem_cString clean)

/-- The array has a zero byte unless it is full of other bytes. -/
theorem terminated_iff (short : received.length ≤ headerSize) :
    Terminated received ↔ received.length < headerSize ∨ (0 : UInt8) ∈ received := by
  constructor
  · rintro ⟨index, below, zero⟩
    rcases Nat.lt_or_ge index received.length with inside | outside
    · -- The zero byte was received.
      rw [List.getD_eq_getElem?_getD, List.getElem?_eq_getElem inside, Option.getD_some] at zero
      exact .inr (zero ▸ List.getElem_mem inside)
    · exact .inl (Nat.lt_of_le_of_lt outside below)
  · rintro (room | member)
    · -- The byte behind those that were received is still zero.
      refine ⟨received.length, room, ?_⟩
      rw [List.getD_eq_getElem?_getD, List.getElem?_eq_none (Nat.le_refl _), Option.getD_none]
    · obtain ⟨index, inside, zero⟩ := List.getElem_of_mem member
      refine ⟨index, by omega, ?_⟩
      rw [List.getD_eq_getElem?_getD, List.getElem?_eq_getElem inside, Option.getD_some, zero]

/-- A byte is stored inside if there is room for it and for a zero byte. -/
theorem byte_inside_iff :
    HeaderAccess.Inside ⟨some received.length, received ++ [value]⟩ ↔
      HasRoom (received ++ [value]) := by
  have length : (received ++ [value]).length = received.length + 1 := by simp
  rw [HeaderAccess.Inside, HasRoom]
  dsimp only
  constructor
  · rintro ⟨inside, terminated⟩
    have below := inside _ rfl
    rw [terminated_iff (by omega), length] at terminated
    rw [length]
    -- The byte is in the array, so only a full one needs a zero byte among those received.
    exact (Nat.lt_or_eq_of_le below).imp_right fun exact =>
      ⟨exact, terminated.resolve_left (by omega)⟩
  · intro room
    have short : (received ++ [value]).length ≤ headerSize := by omega
    refine ⟨fun index same => Option.some.inj same ▸ by omega, ?_⟩
    exact (terminated_iff short).mpr (room.imp_right And.right)

/-- Where all that comes fits, what came before the end of a line has room. -/
theorem Fits.room (unfinished : newline ∉ cString received) (fits : Fits (received ++ rest)) :
    HasRoom received := by
  rcases fits with line | less | ⟨exact, nul⟩
  · have := line.length_lt unfinished
    exact .inl (by omega)
  · rw [List.length_append] at less
    exact .inl (by omega)
  · -- In a full buffer, the zero byte is among those that were received.
    rw [List.length_append] at exact
    refine (Nat.lt_or_eq_of_le (Nat.le_of_add_right_le exact.le)).imp_right fun full => ⟨full, ?_⟩
    obtain rfl : rest = [] := List.length_eq_zero_iff.mp (by omega)
    rwa [List.append_nil] at nul

/-- The newline that ends the loop has room exactly if what comes fits, whatever follows. -/
theorem newline_room_iff (unfinished : newline ∉ received) (clean : (0 : UInt8) ∉ received) :
    HasRoom (received ++ [newline]) ↔ Fits (received ++ [newline] ++ rest) := by
  have length : (received ++ [newline]).length = received.length + 1 := by simp
  have none : (0 : UInt8) ∉ received ++ [newline] := by
    intro member
    rcases List.mem_append.mp member with old | new
    · exact clean old
    · exact absurd (List.mem_singleton.mp new) (by decide)
  constructor
  · rintro (space | ⟨-, nul⟩)
    · rw [length] at space
      exact .inl ⟨received, rest, by simp, unfinished, clean, space⟩
    · exact absurd nul none
  · rintro (line | less | ⟨exact, nul⟩)
    · rw [List.append_assoc] at line
      rw [← cString_eq clean] at unfinished
      exact .inl (by rw [length]; exact line.length_lt unfinished)
    · rw [List.length_append] at less
      exact .inl (by omega)
    · -- The zero byte comes behind the newline.
      rw [List.length_append] at exact
      have later := (List.mem_append.mp nul).resolve_left none
      have positive := List.length_pos_of_mem later
      exact .inl (by omega)

/-- The string in a buffer with a zero byte is shorter than the buffer. -/
theorem length_cString_lt (nul : (0 : UInt8) ∈ received) :
    (cString received).length < received.length := by
  obtain ⟨front, back, rfl, clean⟩ := List.eq_append_cons_of_mem nul
  have ends : cString (0 :: back) = [] := rfl
  rw [cString_clean clean, ends, List.append_nil, List.length_append, List.length_cons]
  omega

/-- A string that ends in the array leaves room for its end. -/
theorem Terminated.length_cString (terminated : Terminated received) :
    (cString received).length < headerSize := by
  obtain ⟨index, below, zero⟩ := terminated
  rcases Nat.lt_or_ge index received.length with inside | outside
  · -- The string is not longer than the place of the zero byte.
    rw [List.getD_eq_getElem?_getD, List.getElem?_eq_getElem inside, Option.getD_some] at zero
    have nul : (0 : UInt8) ∈ received.take (index + 1) :=
      List.mem_take_iff_getElem.mpr ⟨index, by omega, zero⟩
    have shorter := length_cString_lt nul
    have same := @cString_append _ (received.drop (index + 1)) nul
    rw [List.take_append_drop] at same
    rw [same]
    rw [List.length_take] at shorter
    omega
  · have length := (List.takeWhile_sublist (l := received) (· ≠ 0)).length_le
    exact Nat.lt_of_le_of_lt length (Nat.lt_of_le_of_lt outside below)

section Rounds

/-- While no line has ended, the rounds stay in the buffer exactly if all that comes fits. -/
theorem headerRounds_inside (unfinished : newline ∉ cString received) (room : HasRoom received) :
    (∀ access ∈ (headerRounds reads received).1, access.Inside) ↔
      Fits (received ++ delivered reads) := by
  induction reads generalizing received with
  | nil =>
    -- There is no round, and what was received has room.
    rw [headerRounds, delivered, List.append_nil]
    exact iff_of_true nofun (.inr room)
  | cons read reads ih =>
    have short : received.length ≤ headerSize := room.elim Nat.le_of_lt fun full => full.1.le
    have limit : received.length < headReadLimit := by
      simp only [headerSize, headReadLimit] at *
      omega
    have quiet : (cString received).getLast? ≠ some newline :=
      fun last => unfinished (List.mem_of_getLast? last)
    have still : HeaderAccess.Inside ⟨none, received⟩ :=
      ⟨nofun, (terminated_iff short).mpr (room.imp_right And.right)⟩
    rw [headerRounds, if_pos limit]
    cases read with
    | interrupted =>
      -- Nothing is stored, and the loop goes on with what it has.
      simp only [ByteRead.store, ByteRead.index, ByteRead.goesOn, delivered, if_neg quiet, if_true,
        List.forall_mem_cons, ← ih unfinished room]
      exact and_iff_right still
    | failed =>
      simp only [ByteRead.store, ByteRead.index, ByteRead.goesOn, delivered, if_neg quiet,
        Bool.false_eq_true, if_false, List.forall_mem_singleton, List.append_nil]
      exact iff_of_true still (.inr room)
    | ended =>
      simp only [ByteRead.store, ByteRead.index, ByteRead.goesOn, delivered, if_neg quiet,
        Bool.false_eq_true, if_false, List.forall_mem_singleton, List.append_nil]
      exact iff_of_true still (.inr room)
    | byte value =>
      have all : received ++ delivered (.byte value :: reads) =
          (received ++ [value]) ++ delivered reads := by simp [delivered]
      simp only [ByteRead.store, ByteRead.index, ByteRead.goesOn]
      rw [all]
      by_cases ends : (cString (received ++ [value])).getLast? = some newline
      · -- The byte is the newline that ends the loop, so it must leave room for the zero byte.
        obtain ⟨rfl, clean⟩ := (cString_snoc_getLast unfinished).mp ends
        rw [cString_eq clean] at unfinished
        rw [if_pos ends, List.forall_mem_singleton, byte_inside_iff,
          newline_room_iff unfinished clean]
      · have onward := unfinished_snoc unfinished ends
        rw [if_neg ends, if_true, List.forall_mem_cons, byte_inside_iff]
        by_cases next : HasRoom (received ++ [value])
        · rw [← ih onward next]
          exact and_iff_right next
        · -- The byte is behind the array, or fills it without a zero byte.
          exact iff_of_false (fun inside => next inside.1) fun fits => next (fits.room onward)

/-- What is in the buffer after a read is what comes first. -/
theorem stored_so_far {read : ByteRead} :
    read.store received <+: received ++ delivered (read :: reads) := by
  cases read with
  | byte value => exact ⟨delivered reads, by simp [ByteRead.store, delivered]⟩
  | _ => exact List.prefix_append _ _

/-- When the loop goes on, what comes later follows what is in the buffer. -/
theorem store_append {read : ByteRead} (onward : read.goesOn = true) :
    read.store received ++ delivered reads = received ++ delivered (read :: reads) := by
  cases read with
  | byte value => simp [ByteRead.store, delivered]
  | interrupted => rfl
  | failed => cases onward
  | ended => cases onward

/--
What is handed to `parse_request` is the string that the last round has found in the buffer, with a
newline at its end.
-/
theorem headerRounds_line (line : (headerRounds reads received).2 = .line header) :
    ∃ access ∈ (headerRounds reads received).1, header = cString access.buffer ∧
      newline ∈ cString access.buffer ∧ access.buffer <+: received ++ delivered reads := by
  induction reads generalizing received with
  | nil =>
    rw [headerRounds] at line
    dsimp only at line
    split at line <;> cases line
  | cons read reads ih =>
    rw [headerRounds] at line ⊢
    split at line
    · rename_i limit
      rw [if_pos limit]
      dsimp only at line ⊢
      split at line
      · rename_i ends
        rw [if_pos ends]
        exact ⟨_, List.mem_cons_self, (HeaderEnd.line.inj line).symm, List.mem_of_getLast? ends,
          stored_so_far⟩
      · rename_i ends
        rw [if_neg ends]
        split at line
        · -- A later round has found it.
          rename_i onward
          rw [if_pos onward]
          obtain ⟨access, member, same, found, early⟩ := ih line
          rw [store_append onward] at early
          exact ⟨access, List.mem_cons_of_mem _ member, same, found, early⟩
        · cases line
    · cases line

/-- Without a newline up to the limit, the loop ends with a rejection when it ends. -/
theorem headerRounds_rejected
    (missing : newline ∉ (received ++ delivered reads).take headReadLimit)
    (ended : (∃ read ∈ reads, read.goesOn = false) ∨
      headReadLimit ≤ (received ++ delivered reads).length) :
    (headerRounds reads received).2 = .rejected := by
  induction reads generalizing received with
  | nil =>
    rw [delivered, List.append_nil] at ended
    have full := ended.resolve_left nofun
    rw [headerRounds, if_neg (Nat.not_lt.mpr full)]
  | cons read reads ih =>
    rw [headerRounds]
    split
    · rename_i limit
      -- What is in the buffer is among the bytes up to the limit.
      have stored : (read.store received).length ≤ headReadLimit := by
        cases read with
        | byte value =>
          rw [ByteRead.store, List.length_append, List.length_singleton]
          exact limit
        | _ => exact limit.le
      have early := List.prefix_take_iff.mpr ⟨@stored_so_far received reads read, stored⟩
      have quiet : (cString (read.store received)).getLast? ≠ some newline := by
        intro last
        have inside := (List.takeWhile_sublist _).mem (List.mem_of_getLast? last)
        exact missing (early.sublist.mem inside)
      dsimp only
      rw [if_neg quiet]
      split
      · rename_i onward
        rw [← store_append onward] at missing ended
        refine ih missing (ended.imp_left fun ends => ?_)
        -- The read that ends the loop is a later one.
        obtain ⟨last, member, stops⟩ := ends
        rcases List.mem_cons.mp member with rfl | later
        · rw [onward] at stops
          cases stops
        · exact ⟨last, later, stops⟩
      · rfl
    · rfl

end Rounds

/--
For every sequence of results of `read`, the loop of `process_header` stores every byte in the
header buffer, `strlen` and `parse_request` find the end of the string in it, and what has no
newline is rejected, exactly if what comes fits: it has a line that is shorter than the buffer and
has no zero byte, or it is shorter than the buffer as a whole, or fills it with a zero byte in it.
-/
theorem keepsToBuffer_iff (reads : List ByteRead) : KeepsToBuffer reads ↔ Fits (delivered reads) := by
  have inside_iff := @headerRounds_inside [] reads List.not_mem_nil (.inl (by decide))
  rw [List.nil_append] at inside_iff
  constructor
  · exact fun keeps => inside_iff.mp keeps.inside
  · intro fits
    have inside := inside_iff.mpr fits
    refine ⟨inside, fun header line => ?_, fun missing ended => ?_⟩
    · -- The string ends in the array, as it did when `strlen` was called.
      obtain ⟨access, member, rfl, -, -⟩ := headerRounds_line line
      exact (inside access member).2.length_cString
    · exact headerRounds_rejected missing ended

/-- A first line of 128 letters is stored over the whole array, and `strlen` finds no end in it. -/
theorem long_line_leaves_buffer :
    ¬ KeepsToBuffer (List.replicate 128 (.byte 97) ++ [.byte newline]) := by
  intro keeps
  have fits := (@headerRounds_inside [] _ List.not_mem_nil (.inl (by decide))).mp keeps.inside
  have all : delivered (List.replicate 128 (.byte 97) ++ [.byte newline]) =
      List.replicate 128 97 ++ [newline] := by decide
  rw [List.nil_append, all] at fits
  rcases fits with ⟨front, back, split, -, -, short⟩ | less | ⟨exact, -⟩
  · -- There is no newline so early in the line.
    have there : (List.replicate 128 97 ++ [newline])[front.length]? = some newline := by
      rw [split]
      simp
    have early : front.length < 128 := by
      simp only [headerSize] at short
      omega
    rw [List.getElem?_append_left (by rwa [List.length_replicate]),
      List.getElem?_replicate_of_lt early] at there
    cases there
  · rw [List.length_append, List.length_replicate] at less
    exact absurd less (by decide)
  · rw [List.length_append, List.length_replicate] at exact
    exact absurd exact (by decide)

end SystemProgramming.FileServer
