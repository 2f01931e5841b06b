import SystemProgramming.Foundations.Runs
import SystemProgramming.FileServer.Server

/-! What an event of the file server does to its files and tables. -/

namespace SystemProgramming.FileServer

open Foundations

/-- A name of an entry of a directory that a header can carry. -/
structure Plain (filename : Name) : Prop where
  nonempty : filename ≠ []
  slash : slash ∉ filename
  newline : newline ∉ filename
  nul : (0 : UInt8) ∉ filename
  dot : filename ≠ ascii ['.']
  dots : filename ≠ ascii ['.', '.']

instance decidablePlain (filename : Name) : Decidable (Plain filename) :=
  decidable_of_iff (filename ≠ [] ∧ slash ∉ filename ∧ newline ∉ filename ∧ 0 ∉ filename ∧
      filename ≠ ascii ['.'] ∧ filename ≠ ascii ['.', '.'])
    ⟨fun ⟨nonempty, slash, newline, nul, dot, dots⟩ =>
      ⟨nonempty, slash, newline, nul, dot, dots⟩,
    fun plain => ⟨plain.nonempty, plain.slash, plain.newline, plain.nul, plain.dot, plain.dots⟩⟩

/-- The request in an input: its verb, its file name, and what is sent after the header. -/
def Input.request (input : Input) : Option (Verb × Name × List UInt8) :=
  match readHeader (input.reads.length + input.stream.length + 1) input.reads input.stream [] with
  | some (.line header _ stream) =>
    (parseHeader header).map fun request => (request.1, request.2, stream)
  | _ => none

/-- Exactly the declared number of bytes is sent, and five more than that is still a `size_t`. -/
def SendsDeclared (stale sent : List UInt8) : Prop :=
  (sent.drop sizeBytes).length = declaredSize stale (sent.take sizeBytes) ∧
    declaredSize stale (sent.take sizeBytes) + 5 < sizeRange

instance decidableSendsDeclared (stale sent : List UInt8) : Decidable (SendsDeclared stale sent) :=
  inferInstanceAs (Decidable (_ ∧ _))

variable {library : Library}

namespace Server

/-- The event is the header of a `PUT`. -/
def Puts (st : Server library) (event : Event) (filename : Name) (stale sent : List UInt8) : Prop :=
  ∃ fd input info, event = .ready fd input ∧ st.clientDictionary fd = some info ∧
    info.state = 0 ∧ input.stale = stale ∧ input.request = some (.put, filename, sent)

/-- The event carries out a `DELETE`. -/
def Deletes (st : Server library) (event : Event) (filename : Name) : Prop :=
  ∃ fd input info, event = .ready fd input ∧ st.clientDictionary fd = some info ∧
    info.state = 1 ∧ info.method = some .delete ∧ info.filename = filename

/-- The files and the tables are the same; only connections differ. -/
structure SameTables (after before : Server library) : Prop where
  files : after.files = before.files
  filenameVec : after.filenameVec = before.filenameVec
  filenameSize : after.filenameSize = before.filenameSize
  clientDictFilesize : after.clientDictFilesize = before.clientDictFilesize

end Server

/-- Everything that an event can do to the files and the tables. -/
inductive Effect (dirTemplate : Path) (before : Server library) (event : Event)
    (after : Server library) : Prop
  | unchanged (same : after.SameTables before)
      (noPut : ∀ filename stale sent, ¬ before.Puts event filename stale sent)
      (noFile : ∀ filename, before.Deletes event filename →
        before.files (getFilepath dirTemplate filename) = none)
  | stored (filename : Name) (stale sent : List UInt8)
      (puts : before.Puts event filename stale sent) (complete : SendsDeclared stale sent)
      (same : after.SameTables
        ((before.setFile (getFilepath dirTemplate filename) (some (sent.drop sizeBytes))).record
          filename (sent.drop sizeBytes).length
          (before.files (getFilepath dirTemplate filename)).isSome))
  | refused (filename : Name) (stale sent : List UInt8)
      (puts : before.Puts event filename stale sent) (incomplete : ¬ SendsDeclared stale sent)
      (same : after.SameTables (before.setFile (getFilepath dirTemplate filename) none))
  | deleted (filename : Name) (deletes : before.Deletes event filename)
      (file : before.files (getFilepath dirTemplate filename) ≠ none)
      (same : after.SameTables
        (if filename ∈ before.filenameVec then
          (before.setFile (getFilepath dirTemplate filename) none).forget filename
        else before.setFile (getFilepath dirTemplate filename) none))

variable {dirTemplate : Path} {before after st : Server library} {event : Event} {filename : Name}
  {fragments : List Fragment} {stream received stale sent : List UInt8} {outcome : Outcome}
  {input : Input} {info : InfoClient} {fd fuel : Nat}

/-- Reading a byte leaves unbroken calls. -/
theorem readByte_unbroken (unbroken : Unbroken fragments) :
    Unbroken (readByte fragments stream).2.1 := by
  -- A call that is used up is the first one.
  have tail : Unbroken fragments.tail := fun member => unbroken (List.mem_of_mem_tail member)
  unfold readByte
  split
  · exact unbroken.tail
  · exact unbroken.tail
  · exact tail
  · exact tail

/-- Reading a header leaves unbroken calls for what follows. -/
theorem readHeader_unbroken {header rest : List UInt8} {later : List Fragment}
    (unbroken : Unbroken fragments)
    (read : readHeader fuel fragments stream received = some (.line header later rest)) :
    Unbroken later := by
  -- Each round reads one byte or is interrupted.
  induction fuel generalizing fragments stream received with
  | zero => cases read
  | succ fuel ih =>
    have next := @readByte_unbroken fragments stream unbroken
    simp only [readHeader] at read
    split at read
    · split at read
      · cases read
      · split at read
        · cases read
          exact next
        · split at read
          · exact ih next read
          · cases read
    · cases read

/-- A declared size is a `size_t`. -/
theorem declaredSize_lt : declaredSize stale sent < sizeRange := by
  -- At most eight bytes are taken, so the number they stand for fits into a `size_t`.
  have bound := ofLittleEndian_lt ((sent ++ stale.drop sent.length).take sizeBytes)
  have short := List.length_take_le sizeBytes (sent ++ stale.drop sent.length)
  exact Nat.lt_of_lt_of_le bound (Nat.pow_le_pow_right (by decide) short)

/-- Five bytes more are read than declared, so the count is right only for what was declared. -/
theorem length_taken_iff {body : List UInt8} {declared : Nat} (small : declared < sizeRange) :
    (body.take ((declared + 5) % sizeRange)).length = declared ↔
      body.length = declared ∧ declared + 5 < sizeRange := by
  -- All that came is taken if it is not more than five bytes longer than declared.
  rw [List.length_take]
  simp only [sizeRange] at small ⊢
  omega

/-- A `PUT` without errors stores what was sent if that is what was declared. -/
theorem put_eq (unbroken : Unbroken fragments) :
    put dirTemplate st filename input fragments stream =
      some (if SendsDeclared input.stale stream then
        ((st.setFile (getFilepath dirTemplate filename) (some (stream.drop sizeBytes))).record
            filename (stream.drop sizeBytes).length
            (st.files (getFilepath dirTemplate filename)).isSome, true,
          [.access (getFilepath dirTemplate filename),
            .fopen (getFilepath dirTemplate filename) ['w', '+']])
      else (st.setFile (getFilepath dirTemplate filename) none, false,
          [.access (getFilepath dirTemplate filename),
            .fopen (getFilepath dirTemplate filename) ['w', '+'],
            .unlink (getFilepath dirTemplate filename)])) := by
  -- First the eight bytes of the size are read, then the blocks of the file.
  obtain ⟨later, fine, size⟩ := @readAllFromSocket_eq fragments stream sizeBytes unbroken
  obtain ⟨last, -, body⟩ := @receiveBlocks_eq later (stream.drop sizeBytes)
    ((declaredSize input.stale (stream.take sizeBytes) + 5) % sizeRange)
    ((stream.drop sizeBytes).length + 1) fine (Nat.lt_succ_self _)
  simp only [put, size, body]
  have count := @length_taken_iff (stream.drop sizeBytes) _
    (@declaredSize_lt input.stale (stream.take sizeBytes))
  by_cases complete : SendsDeclared input.stale stream
  · -- All that was sent is read, and it has the declared length.
    obtain ⟨exact, fits⟩ := complete
    have whole : (stream.drop sizeBytes).take
        ((declaredSize input.stale (stream.take sizeBytes) + 5) % sizeRange) =
          stream.drop sizeBytes := by
      rw [Nat.mod_eq_of_lt fits]
      exact List.take_of_length_le (by omega)
    rw [if_neg (not_not.mpr (count.mpr ⟨exact, fits⟩)), if_pos ⟨exact, fits⟩, whole, exact]
  · rw [if_pos fun same => complete (count.mp same), if_neg complete]
    rfl

namespace Server

/-- The files and the tables are the same as themselves. -/
theorem SameTables.refl (st : Server library) : st.SameTables st := ⟨rfl, rfl, rfl, rfl⟩

/-- Setting what is kept about a connection changes no file and no table. -/
theorem setClient_sameTables : (st.setClient fd info).SameTables st := ⟨rfl, rfl, rfl, rfl⟩

/-- Closing a connection changes no file and no table. -/
theorem close_sameTables : (st.close fd).SameTables st := ⟨rfl, rfl, rfl, rfl⟩

/-- The connection of an event is one, so the event is the header of one `PUT` at most. -/
theorem puts_iff (found : st.clientDictionary fd = some info) :
    st.Puts (.ready fd input) filename stale sent ↔
      info.state = 0 ∧ input.stale = stale ∧ input.request = some (.put, filename, sent) := by
  -- The connection that the event is about determines what is kept about it.
  constructor
  · intro ⟨_, _, _, same, other, header, old, request⟩
    cases same
    rw [found] at other
    cases other
    exact ⟨header, old, request⟩
  · intro ⟨header, old, request⟩
    exact ⟨fd, input, info, rfl, found, header, old, request⟩

/-- The connection of an event is one, so the event carries out one `DELETE` at most. -/
theorem deletes_iff (found : st.clientDictionary fd = some info) :
    st.Deletes (.ready fd input) filename ↔
      info.state = 1 ∧ info.method = some .delete ∧ info.filename = filename := by
  -- The connection that the event is about determines what is kept about it.
  constructor
  · intro ⟨_, _, _, same, other, parsed, method, name⟩
    cases same
    rw [found] at other
    cases other
    exact ⟨parsed, method, name⟩
  · intro ⟨parsed, method, name⟩
    exact ⟨fd, input, info, rfl, found, parsed, method, name⟩

end Server

open Server

/-- What an event that is no header and carries out no `DELETE` does. -/
theorem Effect.other (found : before.clientDictionary fd = some info)
    (same : after.SameTables before) (header : info.state ≠ 0)
    (method : info.state = 1 → info.method ≠ some .delete) :
    Effect dirTemplate before (.ready fd input) after := by
  -- A header would be in state 0, and a `DELETE` is carried out in state 1.
  refine .unchanged same (fun _ _ _ puts => ?_) (fun _ deletes => ?_)
  · exact header ((puts_iff found).mp puts).1
  · obtain ⟨parsed, deleting, -⟩ := (deletes_iff found).mp deletes
    exact absurd deleting (method parsed)

/-- What a header does. -/
theorem effect_of_processHeader (found : before.clientDictionary fd = some info)
    (header : info.state = 0) (unbroken : Unbroken input.reads)
    (done : processHeader dirTemplate before fd info input = some (after, outcome)) :
    Effect dirTemplate before (.ready fd input) after := by
  -- A connection whose header is read does not carry out a request at the same time.
  have noFile : ∀ filename, before.Deletes (.ready fd input) filename →
      before.files (getFilepath dirTemplate filename) = none := by
    intro filename deletes
    have parsed := ((deletes_iff found).mp deletes).1
    omega
  -- A request that is no `PUT` is only remembered for the next event of its connection.
  have noPut : (∀ filename sent, input.request ≠ some (.put, filename, sent)) →
      ∀ filename stale sent, ¬ before.Puts (.ready fd input) filename stale sent :=
    fun none _ _ _ puts => none _ _ ((puts_iff found).mp puts).2.2
  simp only [processHeader] at done
  split at done
  · cases done
  -- The header is refused before its verb is known.
  next rejected =>
    cases done
    refine .unchanged setClient_sameTables (noPut fun _ _ request => ?_) noFile
    simp [Input.request, rejected] at request
  next line fragments stream read =>
    simp only [parseRequest] at done
    split at done
    -- The verb is none of the four.
    next unknown =>
      cases done
      refine .unchanged setClient_sameTables (noPut fun _ _ request => ?_) noFile
      simp [Input.request, read, unknown] at request
    next filename parsed =>
      have request : input.request = some (.put, filename, stream) := by
        simp [Input.request, read, parsed]
      have puts : before.Puts (.ready fd input) filename input.stale stream :=
        (puts_iff found).mpr ⟨header, rfl, request⟩
      rw [put_eq (readHeader_unbroken unbroken read)] at done
      -- The transfer is complete, or the file is unlinked again.
      by_cases complete : SendsDeclared input.stale stream
      · simp only [if_pos complete] at done
        cases done
        exact .stored filename input.stale stream puts complete setClient_sameTables
      · simp only [if_neg complete] at done
        cases done
        exact .refused filename input.stale stream puts complete setClient_sameTables
    next verb filename parsed other =>
      cases done
      refine .unchanged setClient_sameTables (noPut fun name sent request => ?_) noFile
      simp [Input.request, read, other] at request
      exact parsed request.1

/-- What carrying out a request does. -/
theorem effect_of_processMethod {done : Bool} (found : before.clientDictionary fd = some info)
    (parsed : info.state = 1)
    (carried : processMethod dirTemplate before info input.writes = some (st, done, outcome))
    (same : after.SameTables st) :
    Effect dirTemplate before (.ready fd input) after := by
  -- The verbs but `DELETE` leave the files and the tables alone.
  have other : st = before → info.method ≠ some .delete →
      Effect dirTemplate before (.ready fd input) after := by
    rintro rfl method
    exact .other found same (by omega) fun _ => method
  simp only [processMethod] at carried
  split at carried
  next method =>
    cases carried
    exact other rfl (by simp [method])
  next method =>
    cases carried
    exact other rfl (by simp [method])
  next method =>
    split at carried
    · cases carried
    · cases carried
      exact other rfl (by simp [method])
  next method =>
    have deletes : before.Deletes (.ready fd input) info.filename :=
      (deletes_iff found).mpr ⟨parsed, method, rfl⟩
    -- The event is about one name only.
    have only : ∀ filename, before.Deletes (.ready fd input) filename →
        filename = info.filename :=
      fun _ again => ((deletes_iff found).mp again).2.2.symm
    simp only [processDelete] at carried
    split at carried
    next missing =>
      cases carried
      refine .unchanged same (fun _ _ _ puts => ?_) (fun filename again => ?_)
      · have header := ((puts_iff found).mp puts).1
        omega
      · rw [only filename again]
        exact missing
    next file =>
      split at carried
      -- The name is taken from the tables together with its file.
      next known =>
        cases carried
        refine .deleted info.filename deletes file ?_
        have listed : info.filename ∈ before.filenameVec := known
        rw [if_pos listed]
        exact same
      -- A file without a name in the list is unlinked, but the tables stay.
      next unknown =>
        cases carried
        refine .deleted info.filename deletes file ?_
        have unlisted : info.filename ∉ before.filenameVec := unknown
        rw [if_neg unlisted]
        exact same
  next method =>
    cases carried
    exact other rfl (by simp [method])

/-- What an event does is one of the effects. -/
theorem effect_of_runEpoll
    (unbroken : ∀ fd input, event = .ready fd input → Unbroken input.reads)
    (done : runEpoll dirTemplate before event = some (after, outcome)) :
    Effect dirTemplate before event after := by
  -- An event opens a connection, or is about one that is there.
  cases event with
  | accept fd =>
    simp only [runEpoll] at done
    split at done
    · cases done
      refine .unchanged setClient_sameTables (fun _ _ _ puts => ?_) (fun _ deletes => ?_)
      · obtain ⟨_, _, _, same, -⟩ := puts
        cases same
      · obtain ⟨_, _, _, same, -⟩ := deletes
        cases same
    · cases done
  | ready fd input =>
    simp only [runEpoll] at done
    split at done
    · cases done
    next info found =>
      split at done
      -- State 0 waits for the header, state 1 for the request, and the others for an error.
      next header => exact effect_of_processHeader found header (unbroken fd input rfl) done
      next header =>
        split at done
        next parsed =>
          split at done
          · cases done
          next carried =>
            cases done
            exact effect_of_processMethod found parsed carried close_sameTables
          next carried =>
            cases done
            exact effect_of_processMethod found parsed carried setClient_sameTables
        -- Sending an error only closes the connection.
        next failed =>
          cases done
          exact .other found close_sameTables header fun parsed => absurd parsed failed

end SystemProgramming.FileServer
