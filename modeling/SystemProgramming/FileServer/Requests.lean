import SystemProgramming.FileServer.Client
import SystemProgramming.FileServer.Effects
import Mathlib.Data.List.TakeWhile

/-! What the server makes of the requests that a client sends. -/

namespace SystemProgramming.FileServer

open Foundations

variable {library : Library} {dirTemplate : Path} {before : Server library}
  {filename remote : Name} {fragments : List Fragment} {received todo rest stale content :
  List UInt8} {input : Input} {info : InfoClient} {fd fuel : Nat}

/-- A buffer without a zero byte is a string as a whole. -/
theorem cString_eq (nul : (0 : UInt8) ∉ received) : cString received = received := by
  -- The string ends at the first zero, and there is none.
  apply List.takeWhile_eq_self_iff.mpr
  intro byte member
  simp only [decide_eq_true_eq, ne_eq]
  intro zero
  exact nul (zero ▸ member)

/-- Without errors, a read that finds a byte is interrupted or takes the byte. -/
theorem readByte_cases (unbroken : Unbroken fragments) (byte : UInt8) :
    (readByte fragments (byte :: rest) = (.interrupted, fragments.tail, byte :: rest) ∧
      0 < fragments.length) ∨
    readByte fragments (byte :: rest) = (.byte byte, fragments.tail, rest) := by
  -- The first fragment decides what the call does.
  cases fragments with
  | nil => exact .inr rfl
  | cons fragment fragments =>
    cases fragment with
    | interrupted => exact .inl ⟨rfl, Nat.succ_pos _⟩
    | failed => exact absurd List.mem_cons_self unbroken
    | moves more => exact .inr rfl

/-- A round of the loop goes on while the buffer holds no newline. -/
theorem readHeader_round {read : ByteRead} {later : List Fragment} {stream : List UInt8}
    (got : readByte fragments rest = (read, later, stream)) (goesOn : read.goesOn = true)
    (before : received.length < headReadLimit)
    (line : newline ∉ read.store received) (nul : (0 : UInt8) ∉ read.store received)
    (fits : (read.store received).length < headerSize) :
    readHeader (fuel + 1) fragments rest received =
      readHeader fuel later stream (read.store received) := by
  -- The buffer has room, and its string is what was read.
  have inside : ¬ (headerSize < (read.store received).length ∨
      (cString (read.store received)).length = headerSize) := by
    rw [cString_eq nul]
    omega
  -- The last byte is no newline, since there is none in the buffer.
  have open_ : (cString (read.store received)).getLast? ≠ some newline := by
    rw [cString_eq nul]
    exact fun last => line (List.mem_of_getLast? last)
  rw [readHeader, if_pos before]
  simp only [got]
  rw [if_neg inside, if_neg open_, if_pos goesOn]

/-- The round that reads the newline ends the loop. -/
theorem readHeader_last {later : List Fragment} {stream : List UInt8}
    (got : readByte fragments rest = (.byte newline, later, stream))
    (before : received.length < headReadLimit) (nul : (0 : UInt8) ∉ received)
    (fits : received.length + 1 < headerSize) :
    readHeader (fuel + 1) fragments rest received =
      some (.line (received ++ [newline]) later stream) := by
  -- The newline is the only new byte, so there is still no zero.
  have whole : cString (received ++ [newline]) = received ++ [newline] := by
    apply cString_eq
    intro member
    rcases List.mem_append.mp member with old | new
    · exact nul old
    · exact absurd (List.mem_singleton.mp new) (by decide)
  have length : (received ++ [newline]).length = received.length + 1 := by simp
  -- With the newline there is still room for the end of the string.
  have inside : ¬ (headerSize < (received ++ [newline]).length ∨
      (cString (received ++ [newline])).length = headerSize) := by
    rw [whole, length]
    omega
  rw [readHeader, if_pos before]
  simp only [got, ByteRead.store]
  rw [if_neg inside, whole, if_pos List.getLast?_concat]

/-- The header is read to its end, however its bytes arrive, if it fits into the buffer. -/
theorem readHeader_line (unbroken : Unbroken fragments)
    (line : newline ∉ received ++ todo) (nul : (0 : UInt8) ∉ received ++ todo)
    (fits : (received ++ todo).length + 1 < headerSize)
    (enough : fragments.length + todo.length < fuel) :
    ∃ later, Unbroken later ∧
      readHeader fuel fragments (todo ++ newline :: rest) received =
        some (.line (received ++ (todo ++ [newline])) later rest) := by
  -- Each round is interrupted or reads a byte, and the last one reads the newline.
  induction fuel generalizing fragments received todo with
  | zero => omega
  | succ fuel ih =>
    have tail : Unbroken fragments.tail := fun member => unbroken (List.mem_of_mem_tail member)
    have shorter : fragments.tail.length = fragments.length - 1 := List.length_tail
    have lineSoFar : newline ∉ received := fun member => line (List.mem_append_left _ member)
    have nulSoFar : (0 : UInt8) ∉ received := fun member => nul (List.mem_append_left _ member)
    have room : received.length + todo.length + 1 < headerSize := by
      rwa [List.length_append] at fits
    have limit : received.length < headReadLimit := by
      simp only [headerSize, headReadLimit] at *
      omega
    -- There is always a byte to read, since the newline is still to come.
    obtain ⟨first, more, split⟩ : ∃ first more, todo ++ newline :: rest = first :: more := by
      cases todo <;> exact ⟨_, _, rfl⟩
    -- An interruption uses up a fragment, and a byte is moved to the buffer.
    rcases @readByte_cases fragments more unbroken first with ⟨got, positive⟩ | got
    · rw [← split] at got
      obtain ⟨later, fine, read⟩ := @ih fragments.tail received todo tail line nul fits (by omega)
      refine ⟨later, fine, ?_⟩
      rw [readHeader_round got rfl limit lineSoFar nulSoFar
        (show received.length < headerSize by omega)]
      exact read
    · rw [← split] at got
      cases todo with
      | nil =>
        cases split
        rw [List.append_nil] at nul fits
        exact ⟨fragments.tail, tail, readHeader_last got limit nul fits⟩
      | cons byte todo =>
        obtain ⟨rfl, rfl⟩ := List.cons.inj split
        have whole : received ++ byte :: todo = (received ++ [byte]) ++ todo := by simp
        rw [whole] at line nul fits
        obtain ⟨later, fine, read⟩ :=
          @ih fragments.tail (received ++ [byte]) todo tail line nul fits (by
            rw [List.length_cons] at enough
            omega)
        refine ⟨later, fine, ?_⟩
        rw [readHeader_round got rfl limit (fun member => line (List.mem_append_left _ member))
          (fun member => nul (List.mem_append_left _ member))
          (show (received ++ [byte]).length < headerSize by
            rw [List.length_append] at fits
            omega)]
        show readHeader fuel fragments.tail (todo ++ newline :: rest) (received ++ [byte]) = _
        rw [read]
        simp

/-- The server finds in a header the verb and the name that the client put there. -/
theorem parseHeader_requestBuff {verb : Verb} (named : verb ≠ .list) :
    parseHeader (requestBuff verb remote) = some (verb, remote) := by
  -- The text of a verb is no prefix of another verb's.
  cases verb with
  | list => exact absurd rfl named
  | get => simp [parseHeader, requestBuff, Verb.text, ascii]
  | put => simp [parseHeader, requestBuff, Verb.text, ascii]
  | delete => simp [parseHeader, requestBuff, Verb.text, ascii]

/-- A byte that is in no verb is in no line of a request, unless it is in the name. -/
theorem not_mem_line {verb : Verb} {byte : UInt8} (text : byte ∉ verb.text ++ ascii [' '])
    (name : byte ∉ remote) : byte ∉ verb.text ++ (ascii [' '] ++ remote) := by
  rw [← List.append_assoc]
  exact fun member => (List.mem_append.mp member).elim text name

/-- A header with a plain name is one line without a zero byte. -/
theorem requestBuff_line (verb : Verb) (plain : Plain remote) :
    ∃ line, requestBuff verb remote = line ++ [newline] ∧ newline ∉ line ∧ (0 : UInt8) ∉ line := by
  -- The line is everything before the newline, and none of its parts has a newline or a zero.
  cases verb with
  | list => exact ⟨_, rfl, by decide, by decide⟩
  | get =>
    exact ⟨Verb.text .get ++ (ascii [' '] ++ remote), by simp [requestBuff],
      not_mem_line (by decide) plain.newline, not_mem_line (by decide) plain.nul⟩
  | put =>
    exact ⟨Verb.text .put ++ (ascii [' '] ++ remote), by simp [requestBuff],
      not_mem_line (by decide) plain.newline, not_mem_line (by decide) plain.nul⟩
  | delete =>
    exact ⟨Verb.text .delete ++ (ascii [' '] ++ remote), by simp [requestBuff],
      not_mem_line (by decide) plain.newline, not_mem_line (by decide) plain.nul⟩

/-- The server reads the header that a client sends, and is left with what follows it. -/
theorem readHeader_requestBuff {verb : Verb} (unbroken : Unbroken input.reads)
    (plain : Plain remote) (fits : (requestBuff verb remote).length < headerSize)
    (stream : input.stream = requestBuff verb remote ++ rest) :
    ∃ later, Unbroken later ∧
      readHeader (input.reads.length + input.stream.length + 1) input.reads input.stream [] =
        some (.line (requestBuff verb remote) later rest) := by
  -- The buffer is empty at first, and the whole line is still to be read.
  obtain ⟨line, whole, noNewline, noNul⟩ := requestBuff_line verb plain
  rw [whole] at fits stream ⊢
  have split : line ++ [newline] ++ rest = line ++ newline :: rest := by simp
  rw [List.length_append, List.length_singleton] at fits
  rw [stream, split]
  refine @readHeader_line input.reads [] line rest _ unbroken noNewline noNul fits ?_
  rw [List.length_append]
  omega

/-- What a client asks for is what the server finds in the input. -/
theorem request_eq {verb : Verb} (named : verb ≠ .list) (unbroken : Unbroken input.reads)
    (plain : Plain remote) (fits : (requestBuff verb remote).length < headerSize)
    (stream : input.stream = requestBuff verb remote ++ rest) :
    input.request = some (verb, remote, rest) := by
  obtain ⟨later, -, read⟩ := readHeader_requestBuff unbroken plain fits stream
  simp [Input.request, read, parseHeader_requestBuff named]

/-- A request is found by the loop for the header and by the tests of its verb. -/
theorem readHeader_of_request {verb : Verb} (unbroken : Unbroken input.reads)
    (request : input.request = some (verb, filename, rest)) :
    ∃ header later, Unbroken later ∧ parseHeader header = some (verb, filename) ∧
      readHeader (input.reads.length + input.stream.length + 1) input.reads input.stream [] =
        some (.line header later rest) := by
  -- A request is only found behind a header that was read as a line.
  rw [Input.request] at request
  split at request
  next header later stream read =>
    obtain ⟨asked, parsed, same⟩ := Option.map_eq_some_iff.mp request
    simp only [Prod.mk.injEq] at same
    obtain ⟨rfl, rfl, rfl⟩ := same
    exact ⟨header, later, readHeader_unbroken unbroken read, parsed, read⟩
  · cases request

/-- A `PUT` that sends what it declares is carried out when its header is read. -/
theorem runEpoll_stored (found : before.clientDictionary fd = some info)
    (header : info.state = 0) (unbroken : Unbroken input.reads)
    (request : input.request = some (.put, remote, rest))
    (complete : SendsDeclared input.stale rest) :
    runEpoll dirTemplate before (.ready fd input) =
      some ((((before.setFile (getFilepath dirTemplate remote) (some (rest.drop sizeBytes))).record
          remote (rest.drop sizeBytes).length
          (before.files (getFilepath dirTemplate remote)).isSome).setClient fd
          ⟨1, some .put, remote⟩),
        ⟨[.access (getFilepath dirTemplate remote),
          .fopen (getFilepath dirTemplate remote) ['w', '+']], []⟩) := by
  obtain ⟨line, later, fine, parsed, read⟩ := readHeader_of_request unbroken request
  simp only [runEpoll, found, header, if_true, processHeader, read, parseRequest, parsed,
    put_eq fine, if_pos complete]

/-- A `PUT` that sends more or less than it declares is refused when its header is read. -/
theorem runEpoll_refused (found : before.clientDictionary fd = some info)
    (header : info.state = 0) (unbroken : Unbroken input.reads)
    (request : input.request = some (.put, remote, rest))
    (incomplete : ¬ SendsDeclared input.stale rest) :
    runEpoll dirTemplate before (.ready fd input) =
      some ((before.setFile (getFilepath dirTemplate remote) none).setClient fd
          ⟨-2, some .put, remote⟩,
        ⟨[.access (getFilepath dirTemplate remote),
          .fopen (getFilepath dirTemplate remote) ['w', '+'],
          .unlink (getFilepath dirTemplate remote)], []⟩) := by
  obtain ⟨line, later, fine, parsed, read⟩ := readHeader_of_request unbroken request
  simp only [runEpoll, found, header, if_true, processHeader, read, parseRequest, parsed,
    put_eq fine, if_neg incomplete]
  rfl

/-- A request that is no `PUT` is remembered when its header is read. -/
theorem runEpoll_remembered {verb : Verb} (found : before.clientDictionary fd = some info)
    (header : info.state = 0) (unbroken : Unbroken input.reads)
    (request : input.request = some (verb, remote, rest)) (other : verb ≠ .put) :
    runEpoll dirTemplate before (.ready fd input) =
      some (before.setClient fd ⟨1, some verb, remote⟩, ⟨[], []⟩) := by
  obtain ⟨line, later, fine, parsed, read⟩ := readHeader_of_request unbroken request
  -- The three other verbs are handled by one branch of the source each.
  cases verb with
  | put => exact absurd rfl other
  | get => simp only [runEpoll, found, header, if_true, processHeader, read, parseRequest, parsed]
  | delete =>
    simp only [runEpoll, found, header, if_true, processHeader, read, parseRequest, parsed]
  | list => simp only [runEpoll, found, header, if_true, processHeader, read, parseRequest, parsed]

end SystemProgramming.FileServer
