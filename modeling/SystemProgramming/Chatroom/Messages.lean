import SystemProgramming.Foundations.Stream

/-!
The messages of the chat room: a size of four bytes and as many bytes as it says, over calls that may
move less than they are asked for.
-/

namespace SystemProgramming.Chatroom

open Foundations

/-- `MESSAGE_SIZE_DIGITS`. -/
abbrev messageSizeDigits : Nat := 4

section Integers

/-- The `int32_t` that has the bits of a `uint32_t`. -/
def asInt32 (word : Nat) : Int := if word < 2 ^ 31 then word else word - 2 ^ 32

/-- The `uint32_t` that has the bits of an `int32_t`. -/
def asUInt32 (value : Int) : Nat := (value % 2 ^ 32).toNat

/-- The `ssize_t` that has the bits of a `size_t`. -/
def asSsize (count : Nat) : Int := if count < 2 ^ 63 then count else count - 2 ^ 64

/-- `htonl` of a `uint32_t`, on a machine that stores the lowest byte first. -/
def htonl (hostlong : Nat) : Nat :=
  ofLittleEndian (littleEndian messageSizeDigits hostlong).reverse

/-- `ntohl`, which swaps the bytes like `htonl`. -/
def ntohl (netlong : Nat) : Nat := htonl netlong

end Integers

section Calls

/-- What `read_all_from_socket` leaves. -/
structure Received where
  returned : Int
  bytes : List UInt8
  stream : List UInt8
  fragments : List Fragment

/--
The loop of `read_all_from_socket`, where `all_read` bytes are in the buffer. The calls do what the
fragments say, and after these each call moves all it can. The stream holds what the other side sends
until it closes the connection.
-/
def readLoop : List Fragment → List UInt8 → List UInt8 → Int → Received
  | [], stream, buffer, remainByte =>
    -- One more call finds the end of the stream.
    if (stream.length : Int) < remainByte then ⟨0, buffer ++ stream, [], []⟩
    else
      let allRead := buffer ++ stream.take remainByte.toNat
      ⟨allRead.length, allRead, stream.drop remainByte.toNat, []⟩
  | fragment :: fragments, stream, buffer, remainByte =>
    if 0 < remainByte then
      match fragment with
      -- `EINTR` repeats the call, and so does any other error.
      | .interrupted => readLoop fragments stream buffer remainByte
      | .failed => readLoop fragments stream buffer remainByte
      | .moves more =>
        let getRead := stream.take (min (more + 1) remainByte.toNat)
        -- What was read before is given up.
        if getRead = [] then ⟨0, buffer, stream, fragments⟩
        else
          readLoop fragments (stream.drop getRead.length) (buffer ++ getRead)
            (remainByte - getRead.length)
    else ⟨buffer.length, buffer, stream, fragment :: fragments⟩

/-- `read_all_from_socket`. -/
def readAllFromSocket (fragments : List Fragment) (stream : List UInt8) (count : Nat) : Received :=
  readLoop fragments stream [] (asSsize count)

/-- What `write_all_to_socket` leaves. -/
structure Sent where
  returned : Int
  bytes : List UInt8
  fragments : List Fragment

/-- The loop of `write_all_to_socket`, where `all_written` bytes of the buffer are written. -/
def writeLoop : List Fragment → List UInt8 → Nat → Int → Sent
  | [], buffer, allWritten, remainByte =>
    let rest := (buffer.drop allWritten).take remainByte.toNat
    ⟨allWritten + rest.length, rest, []⟩
  | fragment :: fragments, buffer, allWritten, remainByte =>
    if 0 < remainByte then
      match fragment with
      -- `EINTR` repeats the call, and so does any other error.
      | .interrupted => writeLoop fragments buffer allWritten remainByte
      | .failed => writeLoop fragments buffer allWritten remainByte
      | .moves more =>
        let getWrite := (buffer.drop allWritten).take (min (more + 1) remainByte.toNat)
        if getWrite = [] then ⟨0, [], fragments⟩
        else
          let next := writeLoop fragments buffer (allWritten + getWrite.length)
            (remainByte - getWrite.length)
          ⟨next.returned, getWrite ++ next.bytes, next.fragments⟩
    else ⟨allWritten, [], fragment :: fragments⟩

/-- `write_all_to_socket`. -/
def writeAllToSocket (fragments : List Fragment) (buffer : List UInt8) (count : Nat) : Sent :=
  writeLoop fragments buffer 0 (asSsize count)

/-- The bytes of `size_buf`, an `int32_t`, in `write_message_size`. -/
def sizeBuf (size : Nat) : List UInt8 :=
  littleEndian messageSizeDigits (asUInt32 (asInt32 (htonl (size % 2 ^ 32))))

/-- `write_message_size`. -/
def writeMessageSize (fragments : List Fragment) (size : Nat) : Sent :=
  writeAllToSocket fragments (sizeBuf size) messageSizeDigits

/-- `get_message_size`; the bytes that were read are the `int32_t` that they are read into. -/
def getMessageSize (fragments : List Fragment) (stream : List UInt8) : Received :=
  let read := readAllFromSocket fragments stream messageSizeDigits
  if read.returned = 0 ∨ read.returned = -1 then read
  else { read with returned := ntohl (asUInt32 (asInt32 (ofLittleEndian read.bytes))) }

end Calls

section Writer

/-- The loop of `write_to_server` over the messages, while `retval` is positive. -/
def writeMessages : List Fragment → List (List UInt8) → Sent
  | fragments, [] => ⟨1, [], fragments⟩
  | fragments, message :: messages =>
    let size := writeMessageSize fragments message.length
    if 0 < size.returned then
      let sent := writeAllToSocket size.fragments message message.length
      if 0 < sent.returned then
        let next := writeMessages sent.fragments messages
        ⟨next.returned, size.bytes ++ sent.bytes ++ next.bytes, next.fragments⟩
      else ⟨sent.returned, size.bytes ++ sent.bytes, sent.fragments⟩
    else size

/-- A message as the other side gets it: its length in four bytes, and its bytes. -/
def frame (message : List UInt8) : List UInt8 := sizeBuf message.length ++ message

/-- The messages that the protocol can carry. -/
def Sized (message : List UInt8) : Prop := 1 ≤ message.length ∧ message.length < 2 ^ 32

instance decidableSized (message : List UInt8) : Decidable (Sized message) :=
  inferInstanceAs (Decidable (_ ∧ _))

end Writer

variable {fragments : List Fragment} {stream buffer : List UInt8} {remainByte : Int} {count : Nat}

section Integers

variable {word : Nat}

/-- The sign of an `int32_t` is lost again. -/
theorem asUInt32_asInt32 (below : word < 2 ^ 32) : asUInt32 (asInt32 word) = word := by
  simp only [asUInt32, asInt32]
  split <;> omega

/-- A small `size_t` is its own `ssize_t`. -/
theorem asSsize_of_lt (below : count < 2 ^ 63) : asSsize count = count := if_pos below

/-- Swapped bytes fit in a `uint32_t`. -/
theorem htonl_lt (hostlong : Nat) : htonl hostlong < 2 ^ 32 := by
  have below := ofLittleEndian_lt (littleEndian messageSizeDigits hostlong).reverse
  rwa [List.length_reverse, length_littleEndian] at below

/-- In memory, the swapped number has its bytes in network order. -/
theorem littleEndian_htonl (hostlong : Nat) : littleEndian messageSizeDigits (htonl hostlong) =
    (littleEndian messageSizeDigits hostlong).reverse := by
  have same := littleEndian_ofLittleEndian (littleEndian messageSizeDigits hostlong).reverse
  rwa [List.length_reverse, length_littleEndian] at same

/-- Bytes that are swapped twice are in their place again. -/
theorem ntohl_htonl (below : word < 2 ^ 32) : ntohl (htonl word) = word := by
  rw [ntohl, htonl, littleEndian_htonl, List.reverse_reverse, ofLittleEndian_littleEndian]
  exact Nat.mod_eq_of_lt below

/-- A size is sent in network order. -/
theorem sizeBuf_eq {size : Nat} (below : size < 2 ^ 32) :
    sizeBuf size = (littleEndian messageSizeDigits size).reverse := by
  rw [sizeBuf, asUInt32_asInt32 (htonl_lt _), littleEndian_htonl, Nat.mod_eq_of_lt below]

@[simp] theorem length_sizeBuf (size : Nat) : (sizeBuf size).length = messageSizeDigits := by
  rw [sizeBuf, length_littleEndian]

/-- What comes of a size on the other side. -/
theorem size_of_sizeBuf {size : Nat} (below : size < 2 ^ 32) :
    ntohl (asUInt32 (asInt32 (ofLittleEndian (sizeBuf size)))) = size := by
  have fits := ofLittleEndian_lt (sizeBuf size)
  rw [length_sizeBuf] at fits
  rw [asUInt32_asInt32 fits, sizeBuf_eq below]
  -- Reading the bytes in host order swaps them, which `ntohl` undoes.
  exact ntohl_htonl below

end Integers

section Reading

/-- A loop that reads moves what remains, or finds the end of the stream before. -/
inductive Outcome (stream buffer : List UInt8) (remainByte : Int) : Received → Prop
  | whole {later : List Fragment} : remainByte ≤ stream.length →
      Outcome stream buffer remainByte
        ⟨buffer.length + remainByte.toNat, buffer ++ stream.take remainByte.toNat,
          stream.drop remainByte.toNat, later⟩
  | ended {size : Nat} {later : List Fragment} : stream.length < remainByte →
      Outcome stream buffer remainByte ⟨0, buffer ++ stream.take size, stream.drop size, later⟩

/-- What comes of a loop comes of it with a piece that was read before. -/
theorem Outcome.piece {received : Received} {size : Nat} (within : size ≤ stream.length)
    (asked : (size : Int) ≤ remainByte)
    (outcome : Outcome (stream.drop size) (buffer ++ stream.take size) (remainByte - size) received) :
    Outcome stream buffer remainByte received := by
  cases outcome with
  | @whole later enough =>
    rw [List.length_drop] at enough
    -- The piece and the rest are what remained at first.
    obtain ⟨rest, parts⟩ : ∃ rest, remainByte.toNat = size + rest :=
      Nat.exists_eq_add_of_le (by omega)
    have left : (remainByte - size).toNat = rest := by omega
    have again : Outcome stream buffer remainByte _ := @Outcome.whole _ _ _ later (by omega)
    rw [parts, List.take_add, ← List.drop_drop, ← List.append_assoc] at again
    rw [left, List.length_append, List.length_take, Nat.min_eq_left within]
    convert again using 2
    push_cast
    ring
  | @ended rest later short =>
    rw [List.length_drop] at short
    rw [List.append_assoc, ← List.take_add, List.drop_drop]
    exact .ended (by omega)

/-- What comes of the loop of `read_all_from_socket`. -/
theorem readLoop_outcome (fragments : List Fragment) (stream buffer : List UInt8)
    (remainByte : Int) :
    Outcome stream buffer remainByte (readLoop fragments stream buffer remainByte) := by
  -- Each call is repeated, or moves a piece and leaves the rest to the others.
  induction fragments generalizing stream buffer remainByte with
  | nil =>
    unfold readLoop
    split
    next short =>
      have all := @Outcome.ended stream buffer remainByte stream.length [] short
      rwa [List.take_length, List.drop_length] at all
    next enough =>
      have all := @Outcome.whole stream buffer remainByte [] (by omega)
      have size : (stream.take remainByte.toNat).length = remainByte.toNat := by
        rw [List.length_take]
        omega
      rwa [← Int.natCast_add, ← size, ← List.length_append, size] at all
  | cons fragment fragments ih =>
    unfold readLoop
    split
    next more =>
      cases fragment with
      | interrupted => exact ih stream buffer remainByte
      | failed => exact ih stream buffer remainByte
      | moves extra =>
        dsimp only
        split
        next empty =>
          -- Nothing was moved although something was asked for, so the stream has ended.
          have none : stream = [] := by
            rw [List.take_eq_nil_iff] at empty
            rcases empty with zero | none
            · omega
            · exact none
          subst none
          have nothing := @Outcome.ended [] buffer remainByte 0 fragments (by simpa using more)
          rwa [List.take_nil, List.append_nil] at nothing
        next =>
          -- The piece has some length, within the stream and what was asked for.
          obtain ⟨size, same, within, asked⟩ : ∃ size,
              stream.take (min (extra + 1) remainByte.toNat) = stream.take size ∧
                size ≤ stream.length ∧ size ≤ remainByte.toNat := by
            refine ⟨min (min (extra + 1) remainByte.toNat) stream.length, ?_, by omega, by omega⟩
            exact List.take_eq_take_iff.mpr (by omega)
          rw [same, List.length_take, Nat.min_eq_left within]
          exact Outcome.piece within (by omega) (ih _ _ _)
    next done =>
      have nothing := @Outcome.whole stream buffer remainByte (fragment :: fragments) (by omega)
      rw [show remainByte.toNat = 0 by omega] at nothing
      simpa using nothing

/-- What comes of `read_all_from_socket`. -/
theorem readAllFromSocket_outcome (fragments : List Fragment) (stream : List UInt8)
    (below : count < 2 ^ 63) :
    Outcome stream [] count (readAllFromSocket fragments stream count) := by
  rw [readAllFromSocket, asSsize_of_lt below]
  exact readLoop_outcome fragments stream [] count

/-- A read leaves no more than there was. -/
theorem readAllFromSocket_le (below : count < 2 ^ 63) :
    (readAllFromSocket fragments stream count).stream.length ≤ stream.length := by
  have outcome := readAllFromSocket_outcome fragments stream below
  generalize readAllFromSocket fragments stream count = received at outcome
  cases outcome <;> simp only [List.length_drop] <;> omega

/-- A read that has a result has got what was asked for. -/
theorem readAllFromSocket_spec (below : count < 2 ^ 63)
    (positive : 0 < (readAllFromSocket fragments stream count).returned) :
    0 < count ∧ (readAllFromSocket fragments stream count).bytes.length = count ∧
      (readAllFromSocket fragments stream count).stream.length + count = stream.length := by
  have outcome := readAllFromSocket_outcome fragments stream below
  generalize readAllFromSocket fragments stream count = received at outcome positive
  cases outcome with
  | whole enough =>
    simp only [List.length_nil, Int.toNat_natCast, List.nil_append, List.length_take,
      List.length_drop] at positive ⊢
    omega
  | ended short => exact absurd positive (Int.lt_irrefl 0)

/-- Reading a size leaves no more than there was. -/
theorem getMessageSize_le (fragments : List Fragment) (stream : List UInt8) :
    (getMessageSize fragments stream).stream.length ≤ stream.length := by
  simp only [getMessageSize]
  split <;> exact readAllFromSocket_le (by decide)

/-- A size is that of a message that the protocol can carry. -/
theorem getMessageSize_lt (fragments : List Fragment) (stream : List UInt8) :
    (getMessageSize fragments stream).returned < 2 ^ 32 := by
  simp only [getMessageSize]
  split
  next ended =>
    rcases ended with zero | error
    · rw [zero]
      decide
    · rw [error]
      decide
  next =>
    show ((ntohl _ : Nat) : Int) < 2 ^ 32
    exact_mod_cast htonl_lt _

/-- What is asked for is read, where the other side sends as much. -/
theorem readAllFromSocket_of_le (fragments : List Fragment) (below : count < 2 ^ 63)
    (enough : count ≤ stream.length) :
    ∃ later, readAllFromSocket fragments stream count =
      ⟨count, stream.take count, stream.drop count, later⟩ := by
  have outcome := readAllFromSocket_outcome fragments stream below
  generalize readAllFromSocket fragments stream count = received at outcome
  cases outcome with
  | @whole later _ =>
    refine ⟨later, ?_⟩
    simp
  | ended short => omega

/-- At the end of the stream, a read gives 0. -/
theorem readAllFromSocket_nil (fragments : List Fragment) (below : count < 2 ^ 63)
    (asked : 0 < count) : (readAllFromSocket fragments [] count).returned = 0 := by
  have outcome := readAllFromSocket_outcome fragments [] below
  generalize readAllFromSocket fragments [] count = received at outcome
  cases outcome with
  | whole enough =>
    rw [List.length_nil] at enough
    omega
  | ended _ => rfl

/-- A size that was sent is read again, and nothing behind it. -/
theorem getMessageSize_sizeBuf (fragments : List Fragment) {size : Nat} (below : size < 2 ^ 32)
    (stream : List UInt8) :
    ∃ later, getMessageSize fragments (sizeBuf size ++ stream) =
      ⟨size, sizeBuf size, stream, later⟩ := by
  obtain ⟨later, read⟩ := @readAllFromSocket_of_le (sizeBuf size ++ stream) messageSizeDigits
    fragments (by decide) (by simp)
  refine ⟨later, ?_⟩
  rw [getMessageSize, read]
  simp [size_of_sizeBuf below]

end Reading

section Writing

/-- All that is left of a buffer is written. -/
theorem writeLoop_eq (fragments : List Fragment) {allWritten : Nat}
    (within : allWritten ≤ buffer.length)
    (remains : remainByte = (buffer.length : Int) - allWritten) :
    ∃ later, writeLoop fragments buffer allWritten remainByte =
      ⟨buffer.length, buffer.drop allWritten, later⟩ := by
  -- Each call is repeated, or moves a piece and leaves the rest to the others.
  induction fragments generalizing allWritten remainByte with
  | nil =>
    unfold writeLoop
    have whole : (buffer.drop allWritten).take remainByte.toNat = buffer.drop allWritten := by
      apply List.take_of_length_le
      rw [List.length_drop]
      omega
    refine ⟨[], ?_⟩
    simp only [whole, List.length_drop]
    congr 1
    omega
  | cons fragment fragments ih =>
    unfold writeLoop
    split
    next more =>
      cases fragment with
      | interrupted => exact ih within remains
      | failed => exact ih within remains
      | moves extra =>
        have size : ((buffer.drop allWritten).take (min (extra + 1) remainByte.toNat)).length =
            min (extra + 1) remainByte.toNat := by
          rw [List.length_take, List.length_drop]
          omega
        dsimp only
        rw [if_neg (fun empty => by rw [empty] at size; simp at size; omega)]
        obtain ⟨later, rest⟩ := @ih
          (remainByte - ((buffer.drop allWritten).take (min (extra + 1) remainByte.toNat)).length)
          (allWritten + ((buffer.drop allWritten).take (min (extra + 1) remainByte.toNat)).length)
          (by omega) (by omega)
        refine ⟨later, ?_⟩
        rw [rest, ← List.drop_drop, piece_append_drop]
    next done =>
      obtain rfl : allWritten = buffer.length := by omega
      exact ⟨_, by rw [List.drop_length]⟩

/-- A whole buffer is written. -/
theorem writeAllToSocket_eq (fragments : List Fragment) (below : buffer.length < 2 ^ 63) :
    ∃ later, writeAllToSocket fragments buffer buffer.length =
      ⟨buffer.length, buffer, later⟩ := by
  rw [writeAllToSocket, asSsize_of_lt below]
  exact writeLoop_eq fragments (Nat.zero_le _) (by simp)

/-- A whole size is written. -/
theorem writeMessageSize_eq (fragments : List Fragment) (size : Nat) :
    ∃ later, writeMessageSize fragments size = ⟨messageSizeDigits, sizeBuf size, later⟩ := by
  have written := @writeAllToSocket_eq (sizeBuf size) fragments (by rw [length_sizeBuf]; decide)
  rwa [length_sizeBuf] at written

/-- The frames of all messages are written, one after the other. -/
theorem writeMessages_eq (fragments : List Fragment) {messages : List (List UInt8)}
    (sized : ∀ message ∈ messages, Sized message) :
    0 < (writeMessages fragments messages).returned ∧
      (writeMessages fragments messages).bytes = messages.flatMap frame := by
  induction messages generalizing fragments with
  | nil => exact ⟨Int.zero_lt_one, rfl⟩
  | cons message messages ih =>
    obtain ⟨lower, upper⟩ := sized message List.mem_cons_self
    obtain ⟨middle, size⟩ := writeMessageSize_eq fragments message.length
    obtain ⟨later, sent⟩ := @writeAllToSocket_eq message middle (by omega)
    obtain ⟨returned, bytes⟩ := ih later fun other member =>
      sized other (List.mem_cons_of_mem _ member)
    rw [writeMessages, size]
    dsimp only
    rw [if_pos (by decide), sent]
    dsimp only
    rw [if_pos (by omega)]
    refine ⟨returned, ?_⟩
    rw [bytes, List.flatMap_cons, frame]

end Writing

section Reader

/-- The messages that a reader was given, and the `retval` at the end of its loop. -/
structure Read where
  messages : List (List UInt8)
  returned : Int
  deriving DecidableEq

/-- A message that is read is one that the protocol can carry, and the stream gets shorter. -/
theorem message_spec
    (positive : 0 < (readAllFromSocket (getMessageSize fragments stream).fragments
      (getMessageSize fragments stream).stream
      (getMessageSize fragments stream).returned.toNat).returned) :
    Sized (readAllFromSocket (getMessageSize fragments stream).fragments
      (getMessageSize fragments stream).stream
      (getMessageSize fragments stream).returned.toNat).bytes ∧
    (readAllFromSocket (getMessageSize fragments stream).fragments
      (getMessageSize fragments stream).stream
      (getMessageSize fragments stream).returned.toNat).stream.length < stream.length := by
  have below := getMessageSize_lt fragments stream
  have left := getMessageSize_le fragments stream
  obtain ⟨asked, length, shorter⟩ := readAllFromSocket_spec (by omega) positive
  exact ⟨⟨by omega, by omega⟩, by omega⟩

/--
The loop of `process_client` and of `read_from_server`, while `retval` is positive and the session
goes on. A message is passed on when all of it was read.
-/
def readMessages (fragments : List Fragment) (stream : List UInt8) : Read :=
  let size := getMessageSize fragments stream
  if 0 < size.returned then
    let read := readAllFromSocket size.fragments size.stream size.returned.toNat
    if 0 < read.returned then
      let next := readMessages read.fragments read.stream
      ⟨read.bytes :: next.messages, next.returned⟩
    else ⟨[], read.returned⟩
  else ⟨[], size.returned⟩
termination_by stream.length
decreasing_by
  rename_i positive
  exact (message_spec positive).2

/-- Whatever comes, what the reader passes on is a message that the protocol can carry. -/
theorem readMessages_sized (fragments : List Fragment) (stream : List UInt8) :
    ∀ message ∈ (readMessages fragments stream).messages, Sized message := by
  induction fragments, stream using readMessages.induct with
  | case1 fragments stream size asked read got ih =>
    rw [readMessages]
    simp only [size, read] at asked got ih
    rw [if_pos asked, if_pos got]
    intro message member
    rcases List.mem_cons.mp member with rfl | later
    · exact (message_spec got).1
    · exact ih message later
  | case2 fragments stream size asked read ended =>
    rw [readMessages]
    simp only [size, read] at asked ended
    rw [if_pos asked, if_neg ended]
    exact fun _ member => absurd member List.not_mem_nil
  | case3 fragments stream size ended =>
    rw [readMessages]
    simp only [size] at ended
    rw [if_neg ended]
    exact fun _ member => absurd member List.not_mem_nil

/-- A frame gives its message, and the reader goes on behind it. -/
theorem readMessages_frame (fragments : List Fragment) {message : List UInt8}
    (sized : Sized message) (stream : List UInt8) :
    ∃ later, readMessages fragments (frame message ++ stream) =
      ⟨message :: (readMessages later stream).messages, (readMessages later stream).returned⟩ := by
  obtain ⟨lower, upper⟩ := sized
  obtain ⟨middle, size⟩ := getMessageSize_sizeBuf fragments upper (message ++ stream)
  obtain ⟨later, read⟩ := @readAllFromSocket_of_le (message ++ stream) message.length middle
    (by omega) (by simp)
  refine ⟨later, ?_⟩
  rw [readMessages, frame, List.append_assoc, size]
  dsimp only
  rw [if_pos (by omega), Int.toNat_natCast, read]
  dsimp only
  rw [if_pos (by omega)]
  simp

/-- At the end of the stream, the reader ends. -/
theorem readMessages_nil (fragments : List Fragment) : readMessages fragments [] = ⟨[], 0⟩ := by
  have ended : (getMessageSize fragments []).returned = 0 := by
    have none := @readAllFromSocket_nil messageSizeDigits fragments (by decide) (by decide)
    rw [getMessageSize, if_pos (.inl none)]
    exact none
  rw [readMessages]
  dsimp only
  rw [if_neg (by omega), ended]

/-- From the frames of messages, these messages are read, and then the end of the stream. -/
theorem readMessages_frames {messages : List (List UInt8)} (fragments : List Fragment)
    (sized : ∀ message ∈ messages, Sized message) :
    readMessages fragments (messages.flatMap frame) = ⟨messages, 0⟩ := by
  -- Each round of the reader takes one frame.
  induction messages generalizing fragments with
  | nil => exact readMessages_nil fragments
  | cons message messages ih =>
    obtain ⟨later, first⟩ :=
      readMessages_frame fragments (sized message List.mem_cons_self) (messages.flatMap frame)
    rw [List.flatMap_cons, first, ih later fun other member =>
      sized other (List.mem_cons_of_mem _ member)]

/--
Whatever the calls move, and however often they are interrupted, what is read is the list of messages
that was written, and then the end of the stream.
-/
theorem readMessages_writeMessages (messages : List (List UInt8)) (writes reads : List Fragment)
    (sized : ∀ message ∈ messages, 1 ≤ message.length ∧ message.length < 2 ^ 32) :
    0 < (writeMessages writes messages).returned ∧
      readMessages reads (writeMessages writes messages).bytes = ⟨messages, 0⟩ := by
  obtain ⟨returned, bytes⟩ := writeMessages_eq writes sized
  refine ⟨returned, ?_⟩
  rw [bytes]
  exact readMessages_frames reads sized

/-- Two messages go through calls that are interrupted and move a few bytes. -/
theorem readMessages_writeMessages_pair :
    readMessages [.moves 0, .interrupted, .moves 2]
      (writeMessages [.interrupted, .moves 1, .moves 0] [[104, 105], [0]]).bytes =
        ⟨[[104, 105], [0]], 0⟩ :=
  (readMessages_writeMessages [[104, 105], [0]] [.interrupted, .moves 1, .moves 0]
    [.moves 0, .interrupted, .moves 2] (by decide)).2

end Reader

end SystemProgramming.Chatroom
